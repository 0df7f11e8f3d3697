import H2kvm.Deployers.NameRetries
import H2kvm.Framework.Effects
import H2kvm.Framework.Paths
import H2kvm.Framework.TempFiles

namespace H2kvm.Deployers

open Framework Names Paths Text

variable {δ : Type}

/-- What is raised: the error of a command that fails, another exception, or what `except Exception` does not catch. -/
inductive Raised where
  | calledProcessError
  | exception
  | interrupt
  deriving DecidableEq

/-- The host's files, and the uploader pods that the call has created and that are there. -/
structure Site (δ : Type) where
  files : Shelf Path δ
  uploaders : List Name

abbrev Call (δ α : Type) := EStateM Raised (Site δ) α

/-- A step that touches neither files nor pods: what it gives, or raises. -/
def step {α : Type} : Except Raised α → Call δ α
  | .ok a => pure a
  | .error e => throw e

/-- The image, by its directory and its name. -/
structure ImagePath where
  directory : Path
  name : Name

namespace ImagePath

variable (image : ImagePath)

/-- `src.with_name(f"{src.stem}.cdi-compat{src.suffix}")`. -/
def compat : Path := image.directory ++ [stem image.name ++ ".cdi-compat".toList ++ suffix image.name]

/-- `qcow2_path + ".raw"`. -/
def raw : Path := image.directory ++ [image.name ++ ".raw".toList]

end ImagePath

/-- A run of `qemu-img convert`: what it leaves under the name of its output, and what it raises. -/
structure Conversion (δ : Type) where
  trace : Trace δ
  result : Except Raised Unit

variable (hops : Nat) (image : ImagePath)

/-- `run_qemu_img_convert`. -/
def runQemuImgConvert (dst : Path) (conversion : Conversion δ) : Call δ Unit := do
  modify fun site => { site with files := site.files.leave hops dst conversion.trace }
  step conversion.result

/-- `with contextlib.suppress(OSError): path.unlink(missing_ok=True)`. -/
def unlinkQuietly (path : Path) (allowed : Bool) : Call δ Unit :=
  modify fun site => { site with files := site.files.unlink path allowed }

/-- `try: … finally: …`, with the path that is taken away at the end. -/
def closing {α : Type} (path : Path) (allowed : Bool) (body : Call δ α) : Call δ α := do
  let a ← tryCatch body fun e => do
    unlinkQuietly path allowed
    throw e
  unlinkQuietly path allowed
  pure a

/-! ### CDI -/

/-- How the steps of `_upload_via_cdi` go. A run of virtctl gives its error text if it fails. -/
structure CdiCall (δ : Type) where
  uploadUrl : Except Raised Bool
  usesZstd : Bool
  target : Except Raised Target
  waitsForPvc : Except Raised Bool
  uploadReady : Except Raised Bool
  virtctl : Nat → Except Raised (Option Name)
  waitsAgain : Except Raised Bool
  clears : Bool
  conversion : Conversion δ
  cleans : Bool

namespace CdiCall

variable (call : CdiCall δ)

/-- `_rewrite_qcow2_for_cdi_importer`. -/
def rewriteQcow2ForCdiImporter : Call δ (Option Path) := do
  let dst := image.compat
  unlinkQuietly dst call.clears
  let converted ← tryCatch (do
      runQemuImgConvert hops dst call.conversion
      pure true) fun e => do
    if e = .calledProcessError then
      unlinkQuietly dst call.cleans
      pure false
    else throw e
  if !converted then return none
  if (← get).files.isFile hops dst then return some dst
  unlinkQuietly dst call.cleans
  return none

/-- The first run of virtctl, and the second where the PVC was not ready for it: the error text of the last. -/
def firstUploads : Except Raised (Option Name) := do
  match ← call.virtctl 0 with
  | none => pure none
  | some stderr =>
    if stderrSuggestsCdiPvcNotReady stderr then
      if ← call.waitsAgain then call.virtctl 1 else pure (some stderr)
    else pure (some stderr)

/-- An error text for which the code stops. -/
def givesUp (stderr : Name) : Bool := stderrSuggestsCdiUploadTransient stderr || stderrSuggestsCdiPvcNotReady stderr

/-- The uploads, and the one after the image is encoded anew. -/
def uploads (zstdPreencoded : Bool) : Call δ Bool := do
  match ← step call.firstUploads with
  | none => return true
  | some stderr =>
    if givesUp stderr then return false
    if zstdPreencoded || !stderrSuggestsCdiQcow2Incompatible stderr then return false
    match ← call.rewriteQcow2ForCdiImporter hops image with
    | none => return false
    | some compat => closing compat call.cleans do
      let result ← step (call.virtctl 2)
      return result.isNone

/-- The `try` block of `_upload_via_cdi`: `compat_tmp` is what the outer `finally` takes away. -/
def transfer : Call δ Bool := do
  if call.usesZstd then
    match ← call.rewriteQcow2ForCdiImporter hops image with
    | none => return false
    | some compat => closing compat call.cleans (call.uploads hops image true)
  else call.uploads hops image false

/-- `_upload_via_cdi`. -/
def uploadViaCdi : Call δ Bool := do
  if !(← step call.uploadUrl) then return false
  match ← step call.target with
  | .pvc => call.transfer hops image
  | .dv =>
    if !(← step call.waitsForPvc) then return false
    if !(← step call.uploadReady) then return false
    call.transfer hops image

end CdiCall

/-! ### The uploader pod -/

/-- How the steps of `_upload_image` go: whether `qemu-img info` says qcow2, what the API answers to each attempt to create
the pod, whether the pod runs each time its status is read, whether `kubectl cp` succeeds, and whether the pod is deleted. -/
structure CopyCall (δ : Type) where
  isQcow2 : Except Raised Bool
  conversion : Conversion δ
  rechecks : Except Raised Unit
  drops : Bool
  vmName : Name
  token : Nat → Name
  api : Api
  runs : Nat → Except Raised Bool
  copies : Except Raised Bool
  cleans : Bool
  deletes : Except Raised Bool

namespace CopyCall

variable (call : CopyCall δ)

/-- `if Path(raw_tmp).exists(): Path(raw_tmp).unlink(missing_ok=True)`, and whether it was there. -/
def removeIfThere (path : Path) (allowed : Bool) : Call δ Bool := do
  let site ← get
  if !site.files.isPresent hops path then return false
  if !(allowed && site.files.removable path) then throw .exception
  set { site with files := site.files.unlink path allowed }
  return true

/-- The conversion to raw; the name of the output where it is kept in `raw_tmp`. -/
def convertToRaw : Call δ (Option Path) :=
  tryCatch (do
      if ← step call.isQcow2 then
        runQemuImgConvert hops image.raw call.conversion
        step call.rechecks
        pure (some image.raw)
      else pure none) fun e => do
    if e = .interrupt then throw e
    if call.isQcow2 = .ok true then
      if ← removeIfThere hops image.raw call.drops then return none
      return some image.raw
    return none

/-- The loop that creates the pod. -/
def createUploader : Call δ Name := fun site =>
  match (uploaderRetry call.vmName call.token).run call.api with
  | (.returned name, made) => .ok name { site with uploaders := site.uploaders ++ made }
  | (.raised, made) => .error .exception { site with uploaders := site.uploaders ++ made }

/-- The loop that waits for the pod. -/
def waitForUploader : (left k : Nat) → Except Raised Unit
  | 0, _ => throw .exception
  | left + 1, k => do
    if ← call.runs k then pure ()
    else waitForUploader left (k + 1)

/-- The call that deletes the pod; where the API refuses it, nothing is raised. -/
def deleteUploader (uploader : Name) : Call δ Unit := do
  if ← step call.deletes then
    modify fun site => { site with uploaders := site.uploaders.erase uploader }

/-- The end of `_upload_image`: the raw file and the pod are taken away. -/
def cleanUp (rawTmp : Option Path) (uploader : Name) : Call δ Unit :=
  match rawTmp with
  | some path => do
    let _ ← removeIfThere hops path call.cleans
    call.deleteUploader uploader
  | none => call.deleteUploader uploader

/-- `_upload_image`, after the conversion. -/
def copyByPod (rawTmp : Option Path) : Call δ Unit := do
  let uploader ← call.createUploader
  step (call.waitForUploader 60 0)
  if !(← step call.copies) then throw .exception
  call.cleanUp hops rawTmp uploader

/-- `_upload_image`. -/
def uploadImage : Call δ Unit := do
  let rawTmp ← call.convertToRaw hops image
  call.copyByPod hops rawTmp

end CopyCall

/-! ### Clean ends -/

/-- A call leaves no file, no pod if the API still accepts deletes, and what was there as it was. -/
structure Cleans (before : Path → Option (Entry Path δ)) (deletes : Prop) (after : Site δ) : Prop where
  tidy : Shelf.Tidy before after.files
  pods : deletes → after.uploaders = []

/-- The site before a call. -/
def Site.start (files : Path → Option (Entry Path δ)) : Site δ := ⟨⟨files, []⟩, []⟩

section steps

variable {α β : Type} {site : Site δ} {path : Path} {allowed : Bool}

theorem reads_step (x : Except Raised α) : Reads (step x : Call δ α) := by
  intro site
  cases x <;> rfl

theorem endState_step_ok (a : α) (f : α → Call δ β) (site : Site δ) :
    endState (step (.ok a) >>= f) site = endState (f a) site := rfl

theorem endState_step_error (e : Raised) (f : α → Call δ β) (site : Site δ) :
    endState (step (.error e) >>= f) site = site := rfl

theorem endState_bind_of_ok {x : Call δ α} {f : α → Call δ β} {a : α} {site' : Site δ} (run : x site = .ok a site') :
    endState (x >>= f) site = endState (f a) site' := by
  rw [endState, bind_of_ok run, ← endState]

theorem endState_closing {body : Call δ α} (reads : Reads body) (path : Path) (allowed : Bool) (site : Site δ) :
    endState (closing path allowed body) site = { site with files := site.files.unlink path allowed } := by
  unfold closing
  cases run : body site with
  | ok a site' =>
    obtain rfl := reads.of_ok run
    rw [endState, bind_of_ok (tryCatch_of_ok run)]
    rfl
  | error e site' =>
    have same : site' = site := (endState_of_error run).symm.trans (reads site)
    subst same
    have handled : tryCatch body (fun e => do unlinkQuietly path allowed; throw e) site' =
        .error e { site' with files := site'.files.unlink path allowed } := by
      rw [tryCatch_of_error run]
      rfl
    rw [endState_of_error (bind_of_error handled)]

end steps

namespace CdiCall

variable {hops image} {call : CdiCall δ}

/-- The conversion ends in a way that the code provides for. -/
def handled (call : CdiCall δ) : Bool :=
  match call.conversion.result with
  | .ok _ | .error .calledProcessError => true
  | .error _ => false

/-- The site after the image has been encoded anew, and the file is taken away again. -/
def rewritten (call : CdiCall δ) (hops : Nat) (image : ImagePath) (site : Site δ) : Site δ :=
  { site with
    files := site.files.borrow hops image.compat call.clears call.conversion.trace (call.handled && call.cleans) }

/-- The site when `qemu-img convert` has ended. -/
def converted (call : CdiCall δ) (hops : Nat) (image : ImagePath) (site : Site δ) : Site δ :=
  { site with files := (site.files.unlink image.compat call.clears).leave hops image.compat call.conversion.trace }

theorem rewrite_cases (call : CdiCall δ) (hops : Nat) (image : ImagePath) (site : Site δ) :
    (call.handled = false ∧
      ∃ e, call.rewriteQcow2ForCdiImporter hops image site = .error e (call.converted hops image site)) ∨
    (call.handled = true ∧
      (call.rewriteQcow2ForCdiImporter hops image site = .ok (some image.compat) (call.converted hops image site) ∨
        call.rewriteQcow2ForCdiImporter hops image site = .ok none { call.converted hops image site with
          files := (call.converted hops image site).files.unlink image.compat call.cleans })) := by
  unfold handled
  cases ends : call.conversion.result with
  | ok u =>
    have made : call.rewriteQcow2ForCdiImporter hops image site =
        (if (call.converted hops image site).files.isFile hops image.compat then pure (some image.compat)
          else do
            unlinkQuietly image.compat call.cleans
            pure none : Call δ (Option Path)) (call.converted hops image site) := by
      unfold rewriteQcow2ForCdiImporter runQemuImgConvert
      rw [ends]
      rfl
    rw [made]
    cases (call.converted hops image site).files.isFile hops image.compat with
    | true => exact .inr ⟨rfl, .inl rfl⟩
    | false => exact .inr ⟨rfl, .inr rfl⟩
  | error e =>
    have run : call.rewriteQcow2ForCdiImporter hops image site =
        (if e = .calledProcessError then do
            unlinkQuietly image.compat call.cleans
            pure none
          else throw e : Call δ (Option Path)) (call.converted hops image site) := by
      unfold rewriteQcow2ForCdiImporter runQemuImgConvert
      rw [ends]
      cases e <;> rfl
    rw [run]
    cases e with
    | calledProcessError => exact .inr ⟨rfl, .inr rfl⟩
    | exception => exact .inl ⟨rfl, .exception, rfl⟩
    | interrupt => exact .inl ⟨rfl, .interrupt, rfl⟩

/-- Whatever is done with the new file, it is taken away where the conversion ends in a way that is provided for. -/
theorem endState_rewrite {body : Path → Call δ Bool} (reads : ∀ path, Reads (body path)) (site : Site δ) :
    endState (do
      match ← call.rewriteQcow2ForCdiImporter hops image with
      | none => pure false
      | some compat => closing compat call.cleans (body compat)) site = call.rewritten hops image site := by
  unfold rewritten Shelf.borrow
  rcases rewrite_cases call hops image site with ⟨escapes, e, run⟩ | ⟨handled, run | run⟩
  · rw [endState_of_error (bind_of_error run), escapes, Bool.false_and]
    rfl
  · rw [endState_bind_of_ok run, endState_closing (reads _), handled, Bool.true_and]
    rfl
  · rw [endState_bind_of_ok run, handled, Bool.true_and]
    rfl

/-- The last upload fails with a text for which the image is encoded anew. -/
def rejected (call : CdiCall δ) : Bool :=
  match call.firstUploads with
  | .ok (some stderr) => !givesUp stderr && stderrSuggestsCdiQcow2Incompatible stderr
  | _ => false

/-- The call comes to the uploads. -/
def Transfers (call : CdiCall δ) : Prop :=
  call.uploadUrl = .ok true ∧
    (call.target = .ok .pvc ∨ (call.target = .ok .dv ∧ call.waitsForPvc = .ok true ∧ call.uploadReady = .ok true))

/-- The call comes to encode the image anew: its clusters are compressed with zstd, or CDI rejects it. -/
def Rewrites (call : CdiCall δ) : Prop := call.Transfers ∧ (call.usesZstd || call.rejected) = true

theorem reads_uploads_preencoded (call : CdiCall δ) : Reads (call.uploads hops image true) := by
  intro site
  unfold uploads
  cases call.firstUploads with
  | error e => rfl
  | ok found =>
    cases found with
    | none => rfl
    | some stderr =>
      rw [endState_step_ok]
      dsimp only
      split <;> rfl

theorem endState_uploads (call : CdiCall δ) (site : Site δ) : endState (call.uploads hops image false) site =
    if call.rejected then call.rewritten hops image site else site := by
  unfold uploads
  cases first : call.firstUploads with
  | error e =>
    rw [rejected, first]
    rfl
  | ok found =>
    cases found with
    | none =>
      rw [rejected, first]
      rfl
    | some stderr =>
      have rejects : call.rejected = (!givesUp stderr && stderrSuggestsCdiQcow2Incompatible stderr) := by
        rw [rejected, first]
      rw [endState_step_ok, rejects]
      dsimp only
      by_cases up : givesUp stderr = true
      · rw [if_pos up, up]
        rfl
      · rw [if_neg up, Bool.eq_false_iff.mpr up]
        by_cases codec : stderrSuggestsCdiQcow2Incompatible stderr = true
        · rw [codec]
          exact endState_rewrite (fun _ => (reads_step _).bind fun _ => Reads.of_pure _) site
        · rw [Bool.eq_false_iff.mpr codec]
          rfl

theorem endState_transfer (call : CdiCall δ) (site : Site δ) : endState (call.transfer hops image) site =
    if call.usesZstd || call.rejected then call.rewritten hops image site else site := by
  unfold transfer
  cases call.usesZstd with
  | true => exact endState_rewrite (fun _ => call.reads_uploads_preencoded) site
  | false => exact endState_uploads call site

theorem endState_uploadViaCdi_eq (call : CdiCall δ) (site : Site δ) :
    (call.Transfers ∧ endState (call.uploadViaCdi hops image) site = endState (call.transfer hops image) site) ∨
    (¬ call.Transfers ∧ endState (call.uploadViaCdi hops image) site = site) := by
  unfold Transfers uploadViaCdi
  match call.uploadUrl with
  | .error e => exact .inr ⟨by simp, rfl⟩
  | .ok false => exact .inr ⟨by simp, rfl⟩
  | .ok true =>
    match call.target with
    | .error e => exact .inr ⟨by simp, rfl⟩
    | .ok .pvc => exact .inl ⟨⟨rfl, .inl rfl⟩, rfl⟩
    | .ok .dv =>
      match call.waitsForPvc with
      | .error e => exact .inr ⟨by simp, rfl⟩
      | .ok false => exact .inr ⟨by simp, rfl⟩
      | .ok true =>
        match call.uploadReady with
        | .error e => exact .inr ⟨by simp, rfl⟩
        | .ok false => exact .inr ⟨by simp, rfl⟩
        | .ok true => exact .inl ⟨⟨rfl, .inr ⟨rfl, rfl, rfl⟩⟩, rfl⟩

theorem endState_uploadViaCdi (call : CdiCall δ) (hops : Nat) (image : ImagePath) (site : Site δ) :
    (call.Rewrites ∧ endState (call.uploadViaCdi hops image) site = call.rewritten hops image site) ∨
    (¬ call.Rewrites ∧ endState (call.uploadViaCdi hops image) site = site) := by
  unfold Rewrites
  rcases endState_uploadViaCdi_eq call site with ⟨transfers, run⟩ | ⟨other, run⟩
  · rw [run, endState_transfer]
    by_cases anew : (call.usesZstd || call.rejected) = true
    · rw [if_pos anew]
      exact .inl ⟨⟨transfers, anew⟩, rfl⟩
    · rw [if_neg anew]
      exact .inr ⟨fun both => anew both.2, rfl⟩
  · exact .inr ⟨fun both => other both.1, run⟩

/-- A call ends clean where it does not encode the image anew; or nothing stands under the name of the new file, and what is
written there can be taken away, the conversion having ended as is provided for, or nothing is written; or what stands there
cannot be taken away or written, so that no step does anything. -/
def Spares (call : CdiCall δ) (hops : Nat) (image : ImagePath) (files : Path → Option (Entry Path δ)) : Prop :=
  ¬ call.Rewrites ∨
  (files image.compat = none ∧ ((call.handled && call.cleans) = true ∨ ∀ content, call.conversion.trace ≠ .wrote content)) ∨
  (files image.compat ≠ none ∧ Shelf.unlink ⟨files, []⟩ image.compat call.clears = ⟨files, []⟩ ∧
    Shelf.leave ⟨files, []⟩ hops image.compat call.conversion.trace = ⟨files, []⟩ ∧
    Shelf.unlink ⟨files, []⟩ image.compat (call.handled && call.cleans) = ⟨files, []⟩)

theorem cleans_uploadViaCdi_iff (call : CdiCall δ) (files : Path → Option (Entry Path δ)) (deletes : Prop) :
    Cleans files deletes (endState (call.uploadViaCdi hops image) (Site.start files)) ↔ call.Spares hops image files := by
  unfold Spares
  rcases call.endState_uploadViaCdi hops image (Site.start files) with ⟨anew, run⟩ | ⟨other, run⟩
  · rw [run, ← Shelf.tidy_borrow_iff, or_iff_right (not_not_intro anew)]
    exact ⟨fun cleans => cleans.tidy, fun tidy => ⟨tidy, fun _ => rfl⟩⟩
  · rw [run]
    exact iff_of_true ⟨⟨fun _ absent => absent, fun _ _ => ⟨rfl, nofun⟩⟩, fun _ => rfl⟩ (.inl other)

end CdiCall

namespace Retry

variable {r : Retry} {api : Api}

/-- An attempt creates the object, and the API says so. -/
def Grants (r : Retry) (api : Api) (k : Nat) : Prop := api.reply k = .answers ∧ api.taken k (r.nameAt k) = false

/-- The loop comes to an attempt of that kind. -/
def Ever (r : Retry) (api : Api) (kind : Nat → Prop) : Prop := ∃ k < r.attempts, (∀ j < k, r.Passes api j) ∧ kind k

/-- A loop that uses no object that is there ends with one that it has created, or raises; then there is one only if the
answer was lost. -/
theorem run_of_not_reuses (r : Retry) (api : Api) (fresh : r.reuses = false) :
    (r.Ever api (r.Grants api) ∧ ¬ r.Ever api (r.Loses api) ∧ ∃ name, r.run api = (.returned name, [name])) ∨
    (¬ r.Ever api (r.Grants api) ∧ r.Ever api (r.Loses api) ∧ ∃ name, r.run api = (.raised, [name])) ∨
    (¬ r.Ever api (r.Grants api) ∧ ¬ r.Ever api (r.Loses api) ∧ r.run api = (.raised, [])) := by
  have granted : r.Ever api (r.Grants api) → ∃ name, r.run api = (.returned name, [name]) := by
    rintro ⟨k, less, before, reply, free⟩
    refine ⟨r.nameAt k, run_eq_of_attempt less before ?_⟩
    rw [attempt, reply]
    dsimp only
    rw [free]
    rfl
  have lost : r.Ever api (r.Loses api) → ∃ name, r.run api = (.raised, [name]) := by
    rintro ⟨k, less, before, reply, free⟩
    refine ⟨r.nameAt k, run_eq_of_attempt less before ?_⟩
    rw [attempt, reply]
    dsimp only
    rw [free]
    rfl
  by_cases grants : r.Ever api (r.Grants api)
  · refine .inl ⟨grants, fun loses => ?_, granted grants⟩
    obtain ⟨name, run⟩ := granted grants
    obtain ⟨name', run'⟩ := lost loses
    rw [run] at run'
    cases run'
  · by_cases loses : r.Ever api (r.Loses api)
    · exact .inr (.inl ⟨grants, loses, lost loses⟩)
    · refine .inr (.inr ⟨grants, loses, ?_⟩)
      rcases r.run_cases api with ⟨k, less, before, ends⟩ | ⟨-, raised⟩
      · have notGrants : ¬ r.Grants api k := fun here => grants ⟨k, less, before, here⟩
        rcases attempt_some ends with ⟨⟨-, -, reuses, -⟩, -⟩ | ⟨here, -⟩ | ⟨-, -, out | ⟨out, -⟩⟩
        · rw [fresh] at reuses
          cases reuses
        · exact absurd ⟨k, less, before, here⟩ loses
        · unfold attempt at ends
          rw [out, fresh] at ends
          cases reply : api.reply k with
          | refuses =>
            rw [reply] at ends
            cases ends
          | loses applied =>
            rw [reply] at ends
            cases ends
          | answers =>
            rw [reply] at ends
            dsimp only at ends
            cases taken : api.taken k (r.nameAt k) with
            | false => exact absurd ⟨reply, taken⟩ notGrants
            | true =>
              rw [taken] at ends
              cases ends
        · exact out
      · exact raised

end Retry

namespace CopyCall

variable {hops image} {call : CopyCall δ} {site : Site δ} {path : Path}

/-- The pod is created and comes to run, and the image is copied to it. -/
structure Copied (call : CopyCall δ) : Prop where
  created : (uploaderRetry call.vmName call.token).Ever call.api ((uploaderRetry call.vmName call.token).Grants call.api)
  runs : ∃ k < 60, call.runs k = .ok true ∧ ∀ j < k, call.runs j = .ok false
  copies : call.copies = .ok true

theorem waitForUploader_iff (call : CopyCall δ) (left k : Nat) : call.waitForUploader left k = .ok () ↔
    ∃ i < left, call.runs (k + i) = .ok true ∧ ∀ j < i, call.runs (k + j) = .ok false := by
  induction left generalizing k with
  | zero => exact iff_of_false nofun (by simp)
  | succ left ih =>
    rw [waitForUploader]
    cases here : call.runs k with
    | error e =>
      refine iff_of_false nofun ?_
      rintro ⟨i, -, runs, before⟩
      cases i with
      | zero =>
        rw [Nat.add_zero, here] at runs
        cases runs
      | succ i =>
        have first := before 0 (by omega)
        rw [Nat.add_zero, here] at first
        cases first
    | ok running =>
      cases running with
      | true => exact iff_of_true rfl ⟨0, by omega, here, nofun⟩
      | false =>
        refine (ih (k + 1)).trans ⟨?_, ?_⟩
        · rintro ⟨i, less, runs, before⟩
          refine ⟨i + 1, by omega, by rwa [Nat.add_comm i 1, ← Nat.add_assoc], fun j earlier => ?_⟩
          cases j with
          | zero => exact here
          | succ j =>
            rw [Nat.add_comm j 1, ← Nat.add_assoc]
            exact before j (by omega)
        · rintro ⟨i, less, runs, before⟩
          cases i with
          | zero =>
            rw [Nat.add_zero, here] at runs
            cases runs
          | succ i =>
            refine ⟨i, by omega, by rwa [Nat.add_assoc, Nat.add_comm 1 i], fun j earlier => ?_⟩
            rw [Nat.add_assoc, Nat.add_comm 1 j]
            exact before (j + 1) (by omega)

theorem removeIfThere_cases (hops : Nat) (path : Path) (allowed : Bool) (site : Site δ) :
    (site.files.isPresent hops path = false ∧ removeIfThere hops path allowed site = .ok false site) ∨
    (site.files.isPresent hops path = true ∧ (allowed && site.files.removable path) = false ∧
      removeIfThere hops path allowed site = .error .exception site) ∨
    (site.files.isPresent hops path = true ∧ (allowed && site.files.removable path) = true ∧
      removeIfThere hops path allowed site = .ok true { site with files := site.files.put path none }) := by
  have run : removeIfThere hops path allowed site =
      (if !site.files.isPresent hops path then pure false
        else if !(allowed && site.files.removable path) then throw .exception
        else do
          set { site with files := site.files.unlink path allowed }
          pure true : Call δ Bool) site := rfl
  rw [run]
  cases site.files.isPresent hops path with
  | false => exact .inl ⟨rfl, rfl⟩
  | true =>
    cases both : allowed && site.files.removable path with
    | false => exact .inr (.inl ⟨rfl, rfl, rfl⟩)
    | true =>
      refine .inr (.inr ⟨rfl, rfl, ?_⟩)
      rw [Shelf.unlink, both]
      rfl

/-- The raw file is not there, or can be taken away. -/
def Clears (call : CopyCall δ) (hops : Nat) (rawTmp : Option Path) (site : Site δ) : Prop :=
  ∀ path, rawTmp = some path → site.files.isPresent hops path = true →
    (call.cleans && site.files.removable path) = true

theorem endState_deleteUploader (call : CopyCall δ) (site : Site δ) {name : Name} (single : site.uploaders = [name]) :
    (endState (call.deleteUploader name) site).files = site.files ∧
    (call.deletes = .ok true → (endState (call.deleteUploader name) site).uploaders = []) := by
  unfold deleteUploader
  match call.deletes with
  | .error e => exact ⟨rfl, nofun⟩
  | .ok false => exact ⟨rfl, nofun⟩
  | .ok true =>
    refine ⟨rfl, fun _ => ?_⟩
    show site.uploaders.erase name = []
    rw [single, List.erase_cons_head]

theorem endState_cleanUp (call : CopyCall δ) (hops : Nat) (rawTmp : Option Path) {name : Name}
    (single : site.uploaders = [name]) :
    (endState (call.cleanUp hops rawTmp name) site).files =
      (match rawTmp with
        | some path => site.files.unlink path (site.files.isPresent hops path && call.cleans)
        | none => site.files) ∧
    (call.deletes = .ok true →
      ((endState (call.cleanUp hops rawTmp name) site).uploaders = [] ↔ call.Clears hops rawTmp site)) := by
  unfold cleanUp Clears
  cases rawTmp with
  | none =>
    obtain ⟨files, pods⟩ := call.endState_deleteUploader site single
    exact ⟨files, fun accepts => iff_of_true (pods accepts) nofun⟩
  | some path =>
    dsimp only
    rcases removeIfThere_cases hops path call.cleans site with ⟨absent, run⟩ | ⟨there, fixed, run⟩ | ⟨there, clears, run⟩
    · obtain ⟨files, pods⟩ := call.endState_deleteUploader site single
      rw [endState_bind_of_ok run, absent, Bool.false_and]
      refine ⟨files, fun accepts => iff_of_true (pods accepts) ?_⟩
      rintro _ ⟨⟩ there
      rw [absent] at there
      cases there
    · rw [endState_of_error (bind_of_error run), there, Bool.true_and]
      refine ⟨?_, fun _ => iff_of_false ?_ fun clears => ?_⟩
      · rw [Shelf.unlink, fixed]
        rfl
      · rw [single]
        exact nofun
      · rw [clears path rfl there] at fixed
        cases fixed
    · obtain ⟨files, pods⟩ := call.endState_deleteUploader { site with files := site.files.put path none } single
      rw [endState_bind_of_ok run, there, Bool.true_and]
      refine ⟨?_, fun accepts => iff_of_true (pods accepts) ?_⟩
      · rw [files, Shelf.unlink, clears]
        rfl
      · rintro _ ⟨⟩ -
        exact clears

/-- No attempt creates a pod. -/
def Podless (call : CopyCall δ) : Prop :=
  ¬ (uploaderRetry call.vmName call.token).Ever call.api ((uploaderRetry call.vmName call.token).Grants call.api) ∧
  ¬ (uploaderRetry call.vmName call.token).Ever call.api ((uploaderRetry call.vmName call.token).Loses call.api)

/-- What is left where a pod is created and the image copied, and where not. -/
theorem endState_copyByPod (call : CopyCall δ) (hops : Nat) (rawTmp : Option Path) (site : Site δ)
    (fresh : site.uploaders = []) :
    (call.Copied ∧
      (endState (call.copyByPod hops rawTmp) site).files =
        (match rawTmp with
          | some path => site.files.unlink path (site.files.isPresent hops path && call.cleans)
          | none => site.files) ∧
      (call.deletes = .ok true →
        ((endState (call.copyByPod hops rawTmp) site).uploaders = [] ↔ call.Clears hops rawTmp site))) ∨
    (¬ call.Copied ∧ (endState (call.copyByPod hops rawTmp) site).files = site.files ∧
      ((endState (call.copyByPod hops rawTmp) site).uploaders = [] ↔ call.Podless)) := by
  unfold copyByPod
  rcases (uploaderRetry call.vmName call.token).run_of_not_reuses call.api rfl with
    ⟨grants, loses, name, run⟩ | ⟨grants, loses, name, run⟩ | ⟨grants, loses, run⟩
  · have created : call.createUploader site = .ok name { site with uploaders := [name] } := by
      rw [createUploader, run, fresh]
      rfl
    rw [endState_bind_of_ok created]
    match waits : call.waitForUploader 60 0, copies : call.copies with
    | .ok (), .ok true =>
      have running := (call.waitForUploader_iff 60 0).mp waits
      simp only [Nat.zero_add] at running
      have single : ({ site with uploaders := [name] } : Site δ).uploaders = [name] := rfl
      exact .inl ⟨⟨grants, running, copies⟩, endState_cleanUp call hops rawTmp single⟩
    | .ok (), .ok false =>
      refine .inr ⟨fun copied => ?_, rfl, iff_of_false nofun fun none => none.1 grants⟩
      rw [copied.copies] at copies
      cases copies
    | .ok (), .error e =>
      refine .inr ⟨fun copied => ?_, rfl, iff_of_false nofun fun none => none.1 grants⟩
      rw [copied.copies] at copies
      cases copies
    | .error e, _ =>
      refine .inr ⟨fun copied => ?_, rfl, iff_of_false nofun fun none => none.1 grants⟩
      have running : call.waitForUploader 60 0 = .ok () :=
        (call.waitForUploader_iff 60 0).mpr (by simpa only [Nat.zero_add] using copied.runs)
      rw [running] at waits
      cases waits
  · have raised : call.createUploader site = .error .exception { site with uploaders := [name] } := by
      rw [createUploader, run, fresh]
      rfl
    rw [endState_of_error (bind_of_error raised)]
    exact .inr ⟨fun copied => grants copied.created, rfl, iff_of_false nofun fun none => none.2 loses⟩
  · have raised : call.createUploader site = .error .exception { site with uploaders := [] } := by
      rw [createUploader, run, fresh]
      rfl
    rw [endState_of_error (bind_of_error raised)]
    exact .inr ⟨fun copied => grants copied.created, rfl, iff_of_true rfl ⟨grants, loses⟩⟩

/-- How the conversion ends: with `qemu-img convert`, and the look at what it wrote. -/
def outcome (call : CopyCall δ) : Except Raised Unit := do
  call.conversion.result
  call.rechecks

/-- The site when the conversion has ended. -/
def converted (call : CopyCall δ) (hops : Nat) (image : ImagePath) (site : Site δ) : Site δ :=
  { site with files := site.files.leave hops image.raw call.conversion.trace }

/-- The conversion fails with an exception that is caught. -/
def caught (call : CopyCall δ) : Bool :=
  match call.outcome with
  | .ok _ | .error .interrupt => false
  | .error _ => true

theorem convertToRaw_cases (call : CopyCall δ) (hops : Nat) (image : ImagePath) (site : Site δ) :
    (call.isQcow2 ≠ .ok true ∧
      ((call.isQcow2 = .error .interrupt ∧ call.convertToRaw hops image site = .error .interrupt site) ∨
      (call.isQcow2 ≠ .error .interrupt ∧ call.convertToRaw hops image site = .ok none site))) ∨
    (call.isQcow2 = .ok true ∧ call.outcome = .ok () ∧
      call.convertToRaw hops image site = .ok (some image.raw) (call.converted hops image site)) ∨
    (call.isQcow2 = .ok true ∧ call.outcome = .error .interrupt ∧
      call.convertToRaw hops image site = .error .interrupt (call.converted hops image site)) ∨
    (call.isQcow2 = .ok true ∧ call.caught = true ∧
      call.convertToRaw hops image site = (do
        if ← removeIfThere hops image.raw call.drops then return none
        return some image.raw : Call δ (Option Path)) (call.converted hops image site)) := by
  unfold convertToRaw runQemuImgConvert caught outcome
  match isQcow2 : call.isQcow2 with
  | .ok false => exact .inl ⟨nofun, .inr ⟨nofun, rfl⟩⟩
  | .error .interrupt => exact .inl ⟨nofun, .inl ⟨rfl, rfl⟩⟩
  | .error .exception => exact .inl ⟨nofun, .inr ⟨nofun, rfl⟩⟩
  | .error .calledProcessError => exact .inl ⟨nofun, .inr ⟨nofun, rfl⟩⟩
  | .ok true =>
    match call.conversion.result, call.rechecks with
    | .ok (), .ok () => exact .inr (.inl ⟨rfl, rfl, rfl⟩)
    | .ok (), .error .interrupt => exact .inr (.inr (.inl ⟨rfl, rfl, rfl⟩))
    | .ok (), .error .exception => exact .inr (.inr (.inr ⟨rfl, rfl, rfl⟩))
    | .ok (), .error .calledProcessError => exact .inr (.inr (.inr ⟨rfl, rfl, rfl⟩))
    | .error .interrupt, _ => exact .inr (.inr (.inl ⟨rfl, rfl, rfl⟩))
    | .error .exception, _ => exact .inr (.inr (.inr ⟨rfl, rfl, rfl⟩))
    | .error .calledProcessError, _ => exact .inr (.inr (.inr ⟨rfl, rfl, rfl⟩))

/-- The raw file is taken away: after a conversion that failed, or at the end. -/
def Takes (call : CopyCall δ) (hops : Nat) (image : ImagePath) (site : Site δ) : Prop :=
  (call.converted hops image site).files.isPresent hops image.raw = true ∧
    ((call.caught = true ∧ call.drops = true) ∨ (call.outcome = .ok () ∧ call.Copied ∧ call.cleans = true))

/-- The call ends before it creates a pod: it is interrupted, or the file of a failed conversion cannot be taken away. -/
def Aborts (call : CopyCall δ) (hops : Nat) (image : ImagePath) (site : Site δ) : Prop :=
  call.isQcow2 = .error .interrupt ∨
  (call.isQcow2 = .ok true ∧ (call.outcome = .error .interrupt ∨
    (call.caught = true ∧ (call.converted hops image site).files.isPresent hops image.raw = true ∧
      (call.drops && (call.converted hops image site).files.removable image.raw) = false)))

/-- The image is copied, and the raw file is not in the way of deleting the pod. -/
def Deletes (call : CopyCall δ) (hops : Nat) (image : ImagePath) (site : Site δ) : Prop :=
  call.Copied ∧ (call.isQcow2 = .ok true → call.outcome = .ok () →
    call.Clears hops (some image.raw) (call.converted hops image site))

theorem endState_uploadImage (call : CopyCall δ) (hops : Nat) (image : ImagePath) (site : Site δ)
    (fresh : site.uploaders = []) :
    (call.isQcow2 ≠ .ok true ∧ (endState (call.uploadImage hops image) site).files = site.files ∨
      call.isQcow2 = .ok true ∧ ∃ last, (last = true ↔ call.Takes hops image site) ∧
        (endState (call.uploadImage hops image) site).files =
          site.files.borrow hops image.raw false call.conversion.trace last) ∧
    (call.deletes = .ok true → ((endState (call.uploadImage hops image) site).uploaders = [] ↔
      call.Aborts hops image site ∨ call.Podless ∨ call.Deletes hops image site)) := by
  have fresh' : (call.converted hops image site).uploaders = [] := fresh
  have kept : site.files.borrow hops image.raw false call.conversion.trace false =
    (call.converted hops image site).files := rfl
  unfold uploadImage
  rcases convertToRaw_cases call hops image site with ⟨other, ⟨interrupt, run⟩ | ⟨apart, run⟩⟩ | ⟨qcow2, ends, run⟩ |
    ⟨qcow2, ends, run⟩ | ⟨qcow2, caught, run⟩
  · rw [endState_of_error (bind_of_error run)]
    exact ⟨.inl ⟨other, rfl⟩, fun _ => iff_of_true fresh (.inl (.inl interrupt))⟩
  · rw [endState_bind_of_ok run]
    have aborts : ¬ call.Aborts hops image site := by
      rintro (interrupt | ⟨qcow2, -⟩)
      · exact apart interrupt
      · exact other qcow2
    rcases call.endState_copyByPod hops none site fresh with ⟨copied, files, pods⟩ | ⟨left, files, pods⟩
    · exact ⟨.inl ⟨other, files⟩, fun accepts =>
        iff_of_true ((pods accepts).mpr nofun) (.inr (.inr ⟨copied, fun qcow2 => absurd qcow2 other⟩))⟩
    · refine ⟨.inl ⟨other, files⟩, fun accepts => pods.trans ?_⟩
      exact ⟨fun none => .inr (.inl none),
        fun any => any.elim (absurd · aborts) (·.elim id fun deletes => absurd deletes.1 left)⟩
  · rw [endState_bind_of_ok run]
    have notCaught : call.caught = false := by rw [CopyCall.caught, ends]
    have aborts : ¬ call.Aborts hops image site := by
      rintro (interrupt | ⟨-, interrupt | ⟨caught, -⟩⟩)
      · rw [qcow2] at interrupt
        cases interrupt
      · rw [ends] at interrupt
        cases interrupt
      · rw [notCaught] at caught
        cases caught
    rcases call.endState_copyByPod hops (some image.raw) (call.converted hops image site) fresh' with
      ⟨copied, files, pods⟩ | ⟨left, files, pods⟩
    · refine ⟨.inr ⟨qcow2, _, ?_, files⟩, fun accepts => (pods accepts).trans ?_⟩
      · unfold Takes
        rw [Bool.and_eq_true, notCaught, ends]
        simp [copied]
      · refine ⟨fun clears => .inr (.inr ⟨copied, fun _ _ => clears⟩), ?_⟩
        rintro (aborts' | none | deletes)
        · exact absurd aborts' aborts
        · exact absurd copied.created none.1
        · exact deletes.2 qcow2 ends
    · refine ⟨.inr ⟨qcow2, false, iff_of_false nofun ?_, files⟩, fun accepts => pods.trans ?_⟩
      · rintro ⟨-, ⟨caught, -⟩ | ⟨-, copied, -⟩⟩
        · rw [notCaught] at caught
          cases caught
        · exact left copied
      · exact ⟨fun none => .inr (.inl none),
          fun any => any.elim (absurd · aborts) (·.elim id fun deletes => absurd deletes.1 left)⟩
  · rw [endState_of_error (bind_of_error run)]
    refine ⟨.inr ⟨qcow2, false, iff_of_false nofun ?_, rfl⟩, fun _ => iff_of_true fresh (.inl (.inr ⟨qcow2, .inl ends⟩))⟩
    rintro ⟨-, ⟨caught, -⟩ | ⟨done, -⟩⟩
    · rw [CopyCall.caught, ends] at caught
      cases caught
    · rw [ends] at done
      cases done
  · have notDone : call.outcome ≠ .ok () := by
      intro done
      rw [CopyCall.caught, done] at caught
      cases caught
    rcases removeIfThere_cases hops image.raw call.drops (call.converted hops image site) with
      ⟨absent, drop⟩ | ⟨there, fixed, drop⟩ | ⟨there, clears, drop⟩
    · have run' : call.convertToRaw hops image site = .ok (some image.raw) (call.converted hops image site) := by
        rw [run, bind_of_ok drop]
        rfl
      rw [endState_bind_of_ok run']
      have aborts : ¬ call.Aborts hops image site := by
        rintro (interrupt | ⟨-, interrupt | ⟨-, there, -⟩⟩)
        · rw [qcow2] at interrupt
          cases interrupt
        · rw [CopyCall.caught, interrupt] at caught
          cases caught
        · rw [absent] at there
          cases there
      have takes : ¬ call.Takes hops image site := by
        rintro ⟨there, -⟩
        rw [absent] at there
        cases there
      rcases call.endState_copyByPod hops (some image.raw) (call.converted hops image site) fresh' with
        ⟨copied, files, pods⟩ | ⟨left, files, pods⟩
      · dsimp only at files
        rw [absent, Bool.false_and] at files
        refine ⟨.inr ⟨qcow2, false, iff_of_false nofun takes, files⟩, fun accepts =>
          iff_of_true ((pods accepts).mpr ?_) (.inr (.inr ⟨copied, fun _ done => absurd done notDone⟩))⟩
        rintro _ ⟨⟩ there
        rw [absent] at there
        cases there
      · refine ⟨.inr ⟨qcow2, false, iff_of_false nofun takes, files⟩, fun accepts => pods.trans ?_⟩
        exact ⟨fun none => .inr (.inl none),
          fun any => any.elim (absurd · aborts) (·.elim id fun deletes => absurd deletes.1 left)⟩
    · have run' : call.convertToRaw hops image site = .error .exception (call.converted hops image site) := by
        rw [run, bind_of_error drop]
      rw [endState_of_error (bind_of_error run')]
      refine ⟨.inr ⟨qcow2, call.drops, ?_, ?_⟩, fun _ =>
        iff_of_true fresh (.inl (.inr ⟨qcow2, .inr ⟨caught, there, fixed⟩⟩))⟩
      · exact ⟨fun drops => ⟨there, .inl ⟨caught, drops⟩⟩,
          fun takes => takes.2.elim And.right fun done => absurd done.1 notDone⟩
      · show _ = (call.converted hops image site).files.unlink image.raw call.drops
        rw [Shelf.unlink, fixed]
        rfl
    · have run' : call.convertToRaw hops image site = .ok none
          { call.converted hops image site with files := (call.converted hops image site).files.put image.raw none } := by
        rw [run, bind_of_ok drop]
        rfl
      rw [endState_bind_of_ok run']
      obtain ⟨drops, removable⟩ := Bool.and_eq_true_iff.mp clears
      have gone : (call.converted hops image site).files.put image.raw none =
          site.files.borrow hops image.raw false call.conversion.trace true := by
        show _ = (call.converted hops image site).files.unlink image.raw true
        rw [Shelf.unlink, removable]
        rfl
      have takes : call.Takes hops image site := ⟨there, .inl ⟨caught, drops⟩⟩
      have aborts : ¬ call.Aborts hops image site := by
        rintro (interrupt | ⟨-, interrupt | ⟨-, -, fixed⟩⟩)
        · rw [qcow2] at interrupt
          cases interrupt
        · rw [CopyCall.caught, interrupt] at caught
          cases caught
        · rw [clears] at fixed
          cases fixed
      rcases call.endState_copyByPod hops none { call.converted hops image site with
        files := (call.converted hops image site).files.put image.raw none } fresh' with
        ⟨copied, files, pods⟩ | ⟨left, files, pods⟩
      · exact ⟨.inr ⟨qcow2, true, iff_of_true rfl takes, files.trans gone⟩, fun accepts =>
          iff_of_true ((pods accepts).mpr nofun) (.inr (.inr ⟨copied, fun _ done => absurd done notDone⟩))⟩
      · refine ⟨.inr ⟨qcow2, true, iff_of_true rfl takes, files.trans gone⟩, fun accepts => pods.trans ?_⟩
        exact ⟨fun none => .inr (.inl none),
          fun any => any.elim (absurd · aborts) (·.elim id fun deletes => absurd deletes.1 left)⟩

/-- The files are as they were: the image is not converted; or nothing stands under the name of the raw file, and nothing is
written there, or it is taken away again; or what stands there is neither written nor taken away. -/
def SparesFiles (call : CopyCall δ) (hops : Nat) (image : ImagePath) (files : Path → Option (Entry Path δ)) : Prop :=
  call.isQcow2 ≠ .ok true ∨
  (files image.raw = none ∧
    (call.Takes hops image (Site.start files) ∨ ∀ content, call.conversion.trace ≠ .wrote content)) ∨
  (files image.raw ≠ none ∧ Shelf.leave ⟨files, []⟩ hops image.raw call.conversion.trace = ⟨files, []⟩ ∧
    ¬ (call.Takes hops image (Site.start files) ∧ Shelf.removable ⟨files, []⟩ image.raw = true))

theorem tidy_uploadImage_iff (call : CopyCall δ) (hops : Nat) (image : ImagePath) (files : Path → Option (Entry Path δ)) :
    Shelf.Tidy files (endState (call.uploadImage hops image) (Site.start files)).files ↔
      call.SparesFiles hops image files := by
  unfold SparesFiles
  obtain ⟨disk, -⟩ := call.endState_uploadImage hops image (Site.start files) rfl
  rcases disk with ⟨other, same⟩ | ⟨qcow2, last, takes, same⟩
  · rw [same]
    exact iff_of_true ⟨fun _ absent => absent, fun _ _ => ⟨rfl, nofun⟩⟩ (.inl other)
  · have first : Shelf.unlink ⟨files, []⟩ image.raw false = ⟨files, []⟩ := rfl
    rw [same, or_iff_right (not_not_intro qcow2)]
    refine Shelf.tidy_borrow_iff.trans ?_
    rw [← takes, Shelf.unlink_eq_self_iff ⟨files, []⟩ image.raw last, ← Bool.and_eq_true, Bool.not_eq_true]
    exact or_congr_right (and_congr_right' (and_iff_right first))

/-- A call ends clean where the files are as they were, and where the API deletes pods, none is created, or it is deleted. -/
def Spares (call : CopyCall δ) (hops : Nat) (image : ImagePath) (files : Path → Option (Entry Path δ)) : Prop :=
  call.SparesFiles hops image files ∧
  (call.deletes = .ok true →
    call.Aborts hops image (Site.start files) ∨ call.Podless ∨ call.Deletes hops image (Site.start files))

theorem cleans_uploadImage_iff (call : CopyCall δ) (files : Path → Option (Entry Path δ)) :
    Cleans files (call.deletes = .ok true) (endState (call.uploadImage hops image) (Site.start files)) ↔
      call.Spares hops image files := by
  obtain ⟨-, pods⟩ := call.endState_uploadImage hops image (Site.start files) rfl
  have tidy := call.tidy_uploadImage_iff hops image files
  constructor
  · exact fun cleans => ⟨tidy.mp cleans.tidy, fun accepts => (pods accepts).mp (cleans.pods accepts)⟩
  · exact fun spares => ⟨tidy.mpr spares.1, fun accepts => (pods accepts).mpr (spares.2 accepts)⟩

end CopyCall

/-- Both uploads end clean exactly under their conditions. -/
theorem uploadsClean_iff {δ : Type} (hops : Nat) (image : ImagePath) (files : Path → Option (Entry Path δ)) :
    (∀ (call : CdiCall δ) (deletes : Prop),
      Cleans files deletes (endState (call.uploadViaCdi hops image) (Site.start files)) ↔ call.Spares hops image files) ∧
    ∀ call : CopyCall δ,
      Cleans files (call.deletes = .ok true) (endState (call.uploadImage hops image) (Site.start files)) ↔
        call.Spares hops image files :=
  ⟨fun call deletes => call.cleans_uploadViaCdi_iff files deletes, fun call => call.cleans_uploadImage_iff files⟩

/-- An image beside which nothing stands. -/
def loneImage : ImagePath := ⟨[], "vm.qcow2".toList⟩

def loneFiles : Path → Option (Entry Path Nat) := fun path => if path = ["vm.qcow2".toList] then some (.file 0) else none

/-- The image is converted, and the pod is created but never runs. -/
def neverRuns : CopyCall Nat where
  isQcow2 := .ok true
  conversion := ⟨.wrote 1, .ok ()⟩
  rechecks := .ok ()
  drops := true
  vmName := "vm".toList
  token _ := "0a1b2c3d".toList
  api := ⟨fun _ _ => false, fun _ => .answers, fun _ _ => none⟩
  runs _ := .ok false
  copies := .ok true
  cleans := true
  deletes := .ok true

/-- A pod that does not come to run stays, and the raw file with it. -/
theorem not_cleans_neverRuns :
    ¬ Shelf.Tidy loneFiles (endState (neverRuns.uploadImage 40 loneImage) (Site.start loneFiles)).files ∧
    (endState (neverRuns.uploadImage 40 loneImage) (Site.start loneFiles)).uploaders ≠ [] := by
  constructor
  · intro tidy
    have absent := tidy.absent loneImage.raw (by decide)
    revert absent
    decide +kernel
  · decide +kernel

end H2kvm.Deployers
