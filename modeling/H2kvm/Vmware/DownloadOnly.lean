import H2kvm.Framework.Lines
import H2kvm.Vmware.Datastore

namespace H2kvm.Vmware

open Framework Text

variable {α : Type*}

/-- The content of a file after these writes into an empty directory. -/
def localFile (written : List (List Char × α)) (name : List Char) : Option α :=
  (written.reverse.find? fun w => w.1 = name).map (·.2)

/-- Each of these files has a local file of its own with its content, and nothing else was written. -/
def Exact (files : List (DatastoreFile α)) (written : List (List Char × α)) : Prop :=
  ∃ own : DatastoreFile α → List Char, Set.InjOn own {f | f ∈ files} ∧
    (∀ f ∈ files, localFile written (own f) = some f.content) ∧ ∀ w ∈ written, ∃ f ∈ files, own f = w.1

/-- The files the globs select. -/
def selectedFiles (opt : ExportOptions) (vm : Vm α) : List (DatastoreFile α) :=
  vm.folder.files.filter fun f => selects opt f.name

/-- Every selected file is fetched, whichever transport is used. -/
structure Fetches (client : Client α) (opt : ExportOptions) : Prop where
  exact : opt.failOnMissing = true → ∀ vm, client.vm = some vm → ∀ forceHttps,
    (downloadVmFolder client opt forceHttps).result = .ok () →
      Exact (selectedFiles opt vm) (downloadVmFolder client opt forceHttps).written
  same : opt.failOnMissing = true →
    (downloadOnlyVm client opt).result = .ok () ∨ (downloadOnlyVmForceHttps client opt).result = .ok () →
      localFile (downloadOnlyVm client opt).written = localFile (downloadOnlyVmForceHttps client opt).written
  limit : ∀ vm, client.vm = some vm → opt.maxFiles ≠ 0 → opt.maxFiles < (selectedFiles opt vm).length →
    (downloadOnlyVm client opt).written = [] ∧ (downloadOnlyVmForceHttps client opt).written = []

/-- The listing of the VM's folder is reached. -/
structure Client.Reaches (client : Client α) (vm : Vm α) : Prop where
  si : client.si = true
  found : client.vm = some vm
  datacenter : client.datacenter ≠ none
  browser : client.browser = true
  path : vm.folderRel ≠ none

/-- `govc` downloads the file of this name that lies in the VM's folder itself. -/
def Client.Manages (client : Client α) (vm : Vm α) (name : List Char) : Prop :=
  ∃ succeeds folderRel, client.govc = some succeeds ∧ vm.folderRel = some folderRel ∧
    succeeds (dsPath folderRel name) = true ∧
      ∃ f ∈ vm.folder.files, f.folder = [] ∧ f.name = name

/-- The limit as the code checks it, on the distinct names. -/
def WithinLimit (opt : ExportOptions) (vm : Vm α) : Prop :=
  opt.maxFiles ≠ 0 → ((selectedFiles opt vm).map (·.name)).dedup.length ≤ opt.maxFiles

/-- Some selected file is not downloaded; and where more files than the limit have names within it, none is, or not the
first one if a missing file ends it. -/
structure Stuck (client : Client α) (opt : ExportOptions) (vm : Vm α) : Prop where
  missing : opt.failOnMissing = true → ∃ f ∈ selectedFiles opt vm, ¬client.Manages vm f.name
  nothing : opt.maxFiles ≠ 0 → opt.maxFiles < (selectedFiles opt vm).length → ∀ f ∈ selectedFiles opt vm,
    (opt.failOnMissing = true → ∀ g ∈ selectedFiles opt vm, f.name ≤ g.name) → ¬client.Manages vm f.name

section loop

variable {download : List Char → Option α} {failOnMissing : Bool} {failures names : List (List Char)}

theorem downloadSelectedFiles_raised_iff (fresh : failures = []) :
    (downloadSelectedFiles download true failures names).raised = false ↔ ∀ name ∈ names, download name ≠ none := by
  induction names with
  | nil => simp [downloadSelectedFiles, fresh]
  | cons name names ih =>
    rw [downloadSelectedFiles]
    cases found : download name with
    | some content => simpa [found] using ih
    | none => simp [found]

theorem downloadSelectedFiles_written_eq_nil_iff : (downloadSelectedFiles download failOnMissing failures names).written = [] ↔
    ∀ name ∈ (if failOnMissing then names.take 1 else names), download name = none := by
  induction names generalizing failures with
  | nil => simp [downloadSelectedFiles]
  | cons name names ih =>
    rw [downloadSelectedFiles]
    cases found : download name with
    | some content => cases failOnMissing <;> simp [found]
    | none =>
      cases failOnMissing with
      | true => simp [found]
      | false => simpa [found] using ih

theorem downloadSelectedFiles_written (fetched : ∀ name ∈ names, download name ≠ none) :
    (downloadSelectedFiles download failOnMissing failures names).written.map Prod.fst = names ∧
      ∀ w ∈ (downloadSelectedFiles download failOnMissing failures names).written, download w.1 = some w.2 := by
  induction names with
  | nil => simp [downloadSelectedFiles]
  | cons name names ih =>
    obtain ⟨content, found⟩ := Option.ne_none_iff_exists'.mp (fetched name (List.mem_cons_self ..))
    obtain ⟨order, contents⟩ := ih fun n mem => fetched n (List.mem_cons_of_mem _ mem)
    simp only [downloadSelectedFiles, found, List.map_cons, order, List.mem_cons, true_and]
    rintro w (rfl | mem)
    · exact found
    · exact contents w mem

end loop

section listing

variable {opt : ExportOptions} {vm : Vm α} {folderRel : List Char} {name : List Char}

/-- The names that are selected. -/
def selectedNames (opt : ExportOptions) (vm : Vm α) : List (List Char) :=
  (sortedSet ((vm.folder.files.map (·.name)).filter (· ≠ []))).filter (selects opt)

theorem mem_selectedNames : name ∈ selectedNames opt vm ↔ ∃ f ∈ selectedFiles opt vm, f.name = name := by
  rw [selectedNames, List.mem_filter, sortedSet, (List.perm_insertionSort _ _).mem_iff, List.mem_dedup, List.mem_filter,
    List.mem_map]
  constructor
  · rintro ⟨⟨⟨f, mem, rfl⟩, -⟩, selected⟩
    exact ⟨f, List.mem_filter.mpr ⟨mem, selected⟩, rfl⟩
  · rintro ⟨f, mem, rfl⟩
    obtain ⟨mem, selected⟩ := List.mem_filter.mp mem
    exact ⟨⟨⟨f, mem, rfl⟩, decide_eq_true (vm.folder.named f mem).1⟩, selected⟩

theorem nodup_selectedNames (opt : ExportOptions) (vm : Vm α) : (selectedNames opt vm).Nodup :=
  ((List.perm_insertionSort _ _).nodup_iff.mpr (List.nodup_dedup _)).filter _

theorem sorted_selectedNames (opt : ExportOptions) (vm : Vm α) : (selectedNames opt vm).Pairwise (· ≤ ·) :=
  (List.pairwise_insertionSort (· ≤ ·) _).filter _

theorem length_selectedNames (opt : ExportOptions) (vm : Vm α) :
    (selectedNames opt vm).length = ((selectedFiles opt vm).map (·.name)).dedup.length := by
  have same : (selectedNames opt vm).Perm ((selectedFiles opt vm).map (·.name)).dedup := by
    rw [List.perm_ext_iff_of_nodup (nodup_selectedNames opt vm) (List.nodup_dedup _)]
    intro name
    rw [mem_selectedNames, List.mem_dedup, List.mem_map]
  exact same.length_eq

theorem selectedNames_eq_nil_iff : selectedNames opt vm = [] ↔ selectedFiles opt vm = [] := by
  rw [List.eq_nil_iff_forall_not_mem, List.eq_nil_iff_forall_not_mem]
  constructor
  · intro none f mem
    exact none f.name (mem_selectedNames.mpr ⟨f, mem, rfl⟩)
  · intro none name mem
    obtain ⟨f, mem, -⟩ := mem_selectedNames.mp mem
    exact none f mem

/-- The first selected name is the least one. -/
theorem mem_take_one_selectedNames : name ∈ (selectedNames opt vm).take 1 ↔
    ∃ f ∈ selectedFiles opt vm, f.name = name ∧ ∀ g ∈ selectedFiles opt vm, f.name ≤ g.name := by
  have sorted := sorted_selectedNames opt vm
  have mem (n : List Char) : n ∈ selectedNames opt vm ↔ ∃ f ∈ selectedFiles opt vm, f.name = n := mem_selectedNames
  cases names : selectedNames opt vm with
  | nil =>
    rw [names] at mem
    simpa using fun f hf => absurd ((mem f.name).mpr ⟨f, hf, rfl⟩) (List.not_mem_nil)
  | cons first others =>
    rw [names] at mem sorted
    have least := (List.pairwise_cons.mp sorted).1
    rw [List.take_succ_cons, List.take_zero, List.mem_singleton]
    constructor
    · rintro rfl
      obtain ⟨f, hf, rfl⟩ := (mem name).mp (List.mem_cons_self ..)
      refine ⟨f, hf, rfl, fun g hg => ?_⟩
      rcases List.mem_cons.mp ((mem g.name).mpr ⟨g, hg, rfl⟩) with same | later
      · exact same.ge
      · exact least _ later
    · rintro ⟨f, hf, rfl, lowest⟩
      obtain ⟨g, hg, rfl⟩ := (mem first).mp (List.mem_cons_self ..)
      rcases List.mem_cons.mp ((mem f.name).mpr ⟨f, hf, rfl⟩) with same | later
      · exact same
      · exact le_antisymm (lowest g hg) (least _ later)

/-- Where the code looks for a name, only a file of the VM's folder itself can be. -/
theorem pathOf_eq_iff {f : DatastoreFile α} (plain : '/' ∉ name) :
    Vm.pathOf folderRel f = dsPath folderRel name ↔ f.folder = [] ∧ f.name = name := by
  have cut : Vm.pathOf folderRel f =
      if folderRel ≠ [] then folderRel ++ '/' :: join ['/'] (f.folder ++ [f.name]) else join ['/'] (f.folder ++ [f.name]) := by
    by_cases root : folderRel = []
    · simp [Vm.pathOf, root]
    · have more : f.folder ++ [f.name] ≠ [] := by simp
      rw [Vm.pathOf, if_neg root, if_pos root, List.append_assoc, List.singleton_append, join_cons more]
      simp
  have inside : join ['/'] (f.folder ++ [f.name]) = name ↔ f.folder = [] ∧ f.name = name := by
    cases folder : f.folder with
    | nil => simp [join]
    | cons part parts =>
      refine iff_of_false (fun same => plain ?_) fun h => List.cons_ne_nil _ _ h.1
      rw [← same, List.cons_append, join_cons (by simp)]
      simp
  rw [cut, dsPath, ← inside]
  by_cases root : folderRel = []
  · simp [root]
  · simp [root]

theorem read_ne_none_iff (plain : '/' ∉ name) :
    vm.read folderRel (dsPath folderRel name) ≠ none ↔
      ∃ f ∈ vm.folder.files, f.folder = [] ∧ f.name = name := by
  simp only [Vm.read, pathOf_eq_iff plain, ne_eq, Option.map_eq_none_iff, List.find?_eq_none, not_forall,
    decide_eq_true_eq, not_not, exists_prop]

end listing

section outcomes

variable {client : Client α} {opt : ExportOptions} {vm : Vm α} {folderRel dc : List Char}

theorem httpsDownload_eq_none (folderRel dsPath : List Char) : httpsDownload vm folderRel dsPath = none :=
  if_neg (by decide)

theorem downloadDatastoreFile_eq (forceHttps : Bool) (dsPath : List Char) :
    downloadDatastoreFile client vm forceHttps dc folderRel dsPath =
      if forceHttps then none else govcDownload client vm folderRel dsPath := by
  rw [downloadDatastoreFile]
  cases (if forceHttps then none else govcDownload client vm folderRel dsPath) with
  | none =>
    dsimp only
    split
    · rfl
    · split
      · rfl
      · exact httpsDownload_eq_none folderRel dsPath
  | some content => rfl

/-- The download of one name, as the loop calls it. -/
def fetchName (client : Client α) (vm : Vm α) (forceHttps : Bool) (folderRel name : List Char) : Option α :=
  if forceHttps then none
  else govcDownload client vm folderRel (dsPath folderRel name)

theorem fetchName_ne_none_iff {name : List Char} (folder : vm.folderRel = some folderRel) (plain : '/' ∉ name) :
    fetchName client vm false folderRel name ≠ none ↔ client.Manages vm name := by
  rw [fetchName, if_neg Bool.false_ne_true, govcDownload]
  constructor
  · intro fetched
    cases govc : client.govc with
    | none => simp [govc] at fetched
    | some succeeds =>
      simp only [govc] at fetched
      split at fetched
      · next success => exact ⟨succeeds, folderRel, govc, folder, success, (read_ne_none_iff plain).mp fetched⟩
      · exact absurd rfl fetched
  · rintro ⟨succeeds, folderRel', govc, folder', success, there⟩
    rw [folder, Option.some.injEq] at folder'
    subst folder'
    simp only [govc, success, if_true]
    exact (read_ne_none_iff plain).mpr there

theorem folderRel_eq_of_listing {files : List (List Char)} : listVmDirectoryFiles client vm = some (folderRel, files) ↔
    client.browser = true ∧ vm.folderRel = some folderRel ∧
      files = sortedSet ((vm.folder.files.map (·.name)).filter (· ≠ [])) := by
  rw [listVmDirectoryFiles]
  cases client.browser with
  | false => simp
  | true =>
    rw [if_pos rfl, Option.map_eq_some_iff]
    simp [eq_comm]

theorem filterDownloadOnlyFiles_eq_ok_iff {selected : List (List Char)} :
    filterDownloadOnlyFiles opt (sortedSet ((vm.folder.files.map (·.name)).filter (· ≠ []))) = .ok selected ↔
      WithinLimit opt vm ∧ selected = selectedNames opt vm := by
  have count := length_selectedNames opt vm
  have checked : filterDownloadOnlyFiles opt (sortedSet ((vm.folder.files.map (·.name)).filter (· ≠ []))) =
      if opt.maxFiles ≠ 0 ∧ (selectedNames opt vm).length > opt.maxFiles then
        .error (.refusing (selectedNames opt vm).length) else .ok (selectedNames opt vm) := rfl
  rw [checked, WithinLimit, ← count]
  by_cases exceeds : opt.maxFiles ≠ 0 ∧ (selectedNames opt vm).length > opt.maxFiles
  · rw [if_pos exceeds]
    refine iff_of_false (fun h => nomatch h) fun h => ?_
    have within := h.1 exceeds.1
    omega
  · rw [if_neg exceeds, Except.ok.injEq, eq_comm, iff_and_self]
    intro _ limited
    by_contra above
    exact exceeds ⟨limited, by omega⟩

theorem selection_eq_ok_iff {s : Selection α} : selection client opt = .ok s ↔
    client.Reaches s.vm ∧ WithinLimit opt s.vm ∧ client.datacenter = some s.dcName ∧
      s.vm.folderRel = some s.folderRel ∧ s.selected = selectedNames opt s.vm := by
  constructor
  · intro h
    rw [selection] at h
    split at h
    · cases h
    · next si =>
      split at h
      · cases h
      · cases h
      · next vm dcName found datacenter =>
        split at h
        · cases h
        · next folderRel files listed =>
          obtain ⟨browser, folder, rfl⟩ := folderRel_eq_of_listing.mp listed
          cases filtered : filterDownloadOnlyFiles opt (sortedSet ((vm.folder.files.map (·.name)).filter (· ≠ []))) with
          | error e =>
            rw [filtered] at h
            cases h
          | ok selected =>
            rw [filtered] at h
            cases h
            obtain ⟨within, rfl⟩ := filterDownloadOnlyFiles_eq_ok_iff.mp filtered
            exact ⟨⟨by simpa using si, found, by simp [datacenter], browser, by simp [folder]⟩, within, datacenter, folder,
              rfl⟩
  · obtain ⟨vm, dcName, folderRel, selected⟩ := s
    rintro ⟨reaches, within, datacenter, folder, names⟩
    dsimp only at names
    subst names
    have listed := folderRel_eq_of_listing.mpr ⟨reaches.browser, folder, rfl⟩
    have filtered := filterDownloadOnlyFiles_eq_ok_iff.mpr ⟨within, rfl⟩
    simp only [selection, reaches.si, reaches.found, datacenter, listed, filtered]
    rfl

theorem downloadVmFolder_of_error {e : VMwareError} (h : selection client opt = .error e) (forceHttps : Bool) :
    downloadVmFolder client opt forceHttps = { result := .error e } := by
  rw [downloadVmFolder, h]

theorem fetchName_eq_read {name : List Char} (fetched : fetchName client vm false folderRel name ≠ none) :
    fetchName client vm false folderRel name = vm.read folderRel (dsPath folderRel name) := by
  rw [fetchName, if_neg Bool.false_ne_true, govcDownload] at fetched ⊢
  cases govc : client.govc with
  | none => simp [govc] at fetched
  | some succeeds =>
    simp only [govc] at fetched ⊢
    by_cases success : succeeds (dsPath folderRel name) = true
    · rw [if_pos success]
    · rw [if_neg success] at fetched
      exact absurd rfl fetched

/-- The loop over the selected names. -/
def loop (client : Client α) (opt : ExportOptions) (vm : Vm α) (forceHttps : Bool) (folderRel : List Char) : Downloaded α :=
  downloadSelectedFiles (fetchName client vm forceHttps folderRel) opt.failOnMissing [] (selectedNames opt vm)

theorem downloadVmFolder_of_ok {s : Selection α} (h : selection client opt = .ok s) (forceHttps : Bool) :
    downloadVmFolder client opt forceHttps =
      let done := loop client opt s.vm forceHttps s.folderRel
      { written := done.written, result := if done.raised then .error (.downloadFailed done.failures) else .ok () } := by
  have fetch : (fun name => downloadDatastoreFile client s.vm forceHttps s.dcName s.folderRel (dsPath s.folderRel name)) =
      fetchName client s.vm forceHttps s.folderRel := funext fun name => downloadDatastoreFile_eq ..
  obtain ⟨-, -, -, -, names⟩ := selection_eq_ok_iff.mp h
  rw [downloadVmFolder, h, loop, ← fetch, ← names]

/-- A call ends before the loop, or it does what the loop does. -/
theorem downloadVmFolder_cases (client : Client α) (opt : ExportOptions) (forceHttps : Bool) :
    ((downloadVmFolder client opt forceHttps).written = [] ∧ (downloadVmFolder client opt forceHttps).result ≠ .ok () ∧
      ∀ vm, client.Reaches vm → ¬WithinLimit opt vm) ∨
    ∃ vm folderRel, client.Reaches vm ∧ WithinLimit opt vm ∧ vm.folderRel = some folderRel ∧
      (downloadVmFolder client opt forceHttps).written = (loop client opt vm forceHttps folderRel).written ∧
      ((downloadVmFolder client opt forceHttps).result = .ok () ↔ (loop client opt vm forceHttps folderRel).raised = false) := by
  cases selected : selection client opt with
  | error e =>
    rw [downloadVmFolder_of_error selected]
    refine .inl ⟨rfl, (fun h => nomatch h), fun vm reaches within => ?_⟩
    obtain ⟨dc, datacenter⟩ := Option.ne_none_iff_exists'.mp reaches.datacenter
    obtain ⟨folderRel, folder⟩ := Option.ne_none_iff_exists'.mp reaches.path
    have ok : selection client opt = .ok ⟨vm, dc, folderRel, selectedNames opt vm⟩ :=
      selection_eq_ok_iff.mpr ⟨reaches, within, datacenter, folder, rfl⟩
    rw [selected] at ok
    cases ok
  | ok s =>
    obtain ⟨reaches, within, -, folder, -⟩ := selection_eq_ok_iff.mp selected
    rw [downloadVmFolder_of_ok selected]
    refine .inr ⟨s.vm, s.folderRel, reaches, within, folder, rfl, ?_⟩
    cases raised : (loop client opt s.vm forceHttps s.folderRel).raised with
    | false => simp [raised]
    | true => simp [raised]

theorem loop_force_written (folderRel : List Char) : (loop client opt vm true folderRel).written = [] :=
  downloadSelectedFiles_written_eq_nil_iff.mpr fun _ _ => rfl

theorem force_written (client : Client α) (opt : ExportOptions) : (downloadOnlyVmForceHttps client opt).written = [] := by
  rcases downloadVmFolder_cases client opt true with ⟨empty, -, -⟩ | ⟨vm, folderRel, -, -, -, written, -⟩
  · exact empty
  · exact written.trans (loop_force_written folderRel)

theorem localFile_ne_none_iff {written : List (List Char × α)} {name : List Char} :
    localFile written name ≠ none ↔ ∃ w ∈ written, w.1 = name := by
  simp [localFile]

/-- The names of the files that are selected are file names. -/
theorem plain_of_mem {f : DatastoreFile α} (mem : f ∈ selectedFiles opt vm) : '/' ∉ f.name :=
  (vm.folder.named f (List.mem_filter.mp mem).1).2

theorem fetchName_eq_none_iff {f : DatastoreFile α} (mem : f ∈ selectedFiles opt vm) (folder : vm.folderRel = some folderRel) :
    fetchName client vm false folderRel f.name = none ↔ ¬client.Manages vm f.name := by
  rw [← fetchName_ne_none_iff folder (plain_of_mem mem), not_not]

theorem loop_written_eq_nil_iff (folder : vm.folderRel = some folderRel) :
    (loop client opt vm false folderRel).written = [] ↔ ∀ f ∈ selectedFiles opt vm,
      (opt.failOnMissing = true → ∀ g ∈ selectedFiles opt vm, f.name ≤ g.name) → ¬client.Manages vm f.name := by
  rw [loop, downloadSelectedFiles_written_eq_nil_iff]
  cases opt.failOnMissing with
  | false =>
    simp only [Bool.false_eq_true, if_false, mem_selectedNames, false_imp_iff, forall_const]
    constructor
    · intro none f mem
      exact (fetchName_eq_none_iff mem folder).mp (none f.name ⟨f, mem, rfl⟩)
    · rintro unmanaged _ ⟨f, mem, rfl⟩
      exact (fetchName_eq_none_iff mem folder).mpr (unmanaged f mem)
  | true =>
    simp only [if_true, mem_take_one_selectedNames, forall_const]
    constructor
    · intro none f mem least
      exact (fetchName_eq_none_iff mem folder).mp (none f.name ⟨f, mem, rfl, least⟩)
    · rintro unmanaged _ ⟨f, mem, rfl, least⟩
      exact (fetchName_eq_none_iff mem folder).mpr (unmanaged f mem least)

/-- With `fail_on_missing`, `govc` has to manage every selected name, and without it there must be nothing to do. -/
theorem loop_raised_iff (fail : opt.failOnMissing = true) (folder : vm.folderRel = some folderRel) (forceHttps : Bool) :
    (loop client opt vm forceHttps folderRel).raised = false ↔
      ∀ f ∈ selectedFiles opt vm, forceHttps = false ∧ client.Manages vm f.name := by
  rw [loop, fail, downloadSelectedFiles_raised_iff rfl]
  constructor
  · intro fetched f mem
    have some := fetched f.name (mem_selectedNames.mpr ⟨f, mem, rfl⟩)
    cases forceHttps with
    | false => exact ⟨rfl, (fetchName_ne_none_iff folder (plain_of_mem mem)).mp some⟩
    | true => exact absurd rfl some
  · intro managed name mem
    obtain ⟨f, chosen, rfl⟩ := mem_selectedNames.mp mem
    obtain ⟨rfl, there⟩ := managed f chosen
    exact (fetchName_ne_none_iff folder (plain_of_mem chosen)).mpr there

end outcomes

section property

variable {client : Client α} {opt : ExportOptions}

theorem written_eq_nil_of_selectedFiles {vm : Vm α} (found : client.vm = some vm) (empty : selectedFiles opt vm = [])
    (forceHttps : Bool) : (downloadVmFolder client opt forceHttps).written = [] := by
  rcases downloadVmFolder_cases client opt forceHttps with ⟨written, -, -⟩ | ⟨vm', folderRel, reaches, -, folder, written, -⟩
  · exact written
  · have same : vm' = vm := Option.some.inj (reaches.found.symm.trans found)
    subst same
    rw [written, loop, selectedNames_eq_nil_iff.mpr empty]
    rfl

theorem selectedFiles_eq_nil_of_ok {vm : Vm α} {forceHttps : Bool} (fail : opt.failOnMissing = true)
    (found : client.vm = some vm)
    (stuck : client.Reaches vm → WithinLimit opt vm → selectedFiles opt vm ≠ [] → Stuck client opt vm)
    (ok : (downloadVmFolder client opt forceHttps).result = .ok ()) : selectedFiles opt vm = [] := by
  rcases downloadVmFolder_cases client opt forceHttps with ⟨-, failed, -⟩ | ⟨vm', folderRel, reaches, within, folder, -, returned⟩
  · exact absurd ok failed
  · have same : vm' = vm := Option.some.inj (reaches.found.symm.trans found)
    subst same
    by_contra some
    obtain ⟨f, mem, unmanaged⟩ := (stuck reaches within some).missing fail
    exact unmanaged ((loop_raised_iff fail folder forceHttps).mp (returned.mp ok) f mem).2

theorem localFile_eq {written : List (List Char × α)} {download : List Char → Option α} {name : List Char}
    (mem : name ∈ written.map Prod.fst) (contents : ∀ w ∈ written, download w.1 = some w.2) :
    localFile written name = download name := by
  obtain ⟨w, here, rfl⟩ := List.mem_map.mp mem
  have there : (written.reverse.find? fun v => v.1 = w.1) ≠ none := by simpa using ⟨w.2, here⟩
  obtain ⟨v, found⟩ := Option.ne_none_iff_exists'.mp there
  have same : v.1 = w.1 := by simpa using List.find?_some found
  rw [localFile, found, Option.map_some, ← same]
  exact (contents v (List.mem_reverse.mp (List.mem_of_find?_eq_some found))).symm

theorem read_dsPath {vm : Vm α} {f : DatastoreFile α} (mem : f ∈ vm.folder.files) (top : f.folder = []) (folderRel : List Char) :
    vm.read folderRel (dsPath folderRel f.name) = some f.content := by
  have plain := (vm.folder.named f mem).2
  have found : (vm.folder.files.find? fun g => Vm.pathOf folderRel g = dsPath folderRel f.name) ≠ none := by
    simpa [pathOf_eq_iff plain] using ⟨f, mem, top, rfl⟩
  obtain ⟨g, found⟩ := Option.ne_none_iff_exists'.mp found
  have same : g.folder = [] ∧ g.name = f.name := (pathOf_eq_iff plain).mp (by simpa using List.find?_some found)
  have key : (g.folder, g.name) = (f.folder, f.name) := by rw [same.1, same.2, top]
  have eq : g = f := List.inj_on_of_nodup_map vm.folder.distinct (List.mem_of_find?_eq_some found) mem key
  rw [Vm.read, found, Option.map_some, eq]

/-- What `download_only_vm` returns with is exact when no selected file lies in a folder of its own. -/
theorem exact_iff {vm : Vm α} (fail : opt.failOnMissing = true) (found : client.vm = some vm)
    (ok : (downloadOnlyVm client opt).result = .ok ()) :
    Exact (selectedFiles opt vm) (downloadOnlyVm client opt).written ↔ ∀ f ∈ selectedFiles opt vm, f.folder = [] := by
  obtain ⟨-, failed, -⟩ | ⟨vm', folderRel, reaches, within, folder, written, returned⟩ := downloadVmFolder_cases client opt false
  · exact absurd ok failed
  have same : vm' = vm := Option.some.inj (reaches.found.symm.trans found)
  subst same
  have managed := (loop_raised_iff fail folder false).mp (returned.mp ok)
  have fetched (name : List Char) (mem : name ∈ selectedNames opt vm') : fetchName client vm' false folderRel name ≠ none := by
    obtain ⟨f, chosen, rfl⟩ := mem_selectedNames.mp mem
    exact (fetchName_ne_none_iff folder (plain_of_mem chosen)).mpr (managed f chosen).2
  obtain ⟨order, contents⟩ : (loop client opt vm' false folderRel).written.map Prod.fst = selectedNames opt vm' ∧
      ∀ w ∈ (loop client opt vm' false folderRel).written, fetchName client vm' false folderRel w.1 = some w.2 :=
    downloadSelectedFiles_written fetched
  rw [downloadOnlyVm, written]
  have nodup : (selectedFiles opt vm').Nodup := (List.Nodup.of_map _ vm'.folder.distinct).filter _
  constructor
  · rintro ⟨own, injective, kept, -⟩
    -- as many names as files, and each name is that of a file of the VM's folder
    have fits : (selectedFiles opt vm').length ≤ (selectedNames opt vm').length := by
      have owns : ((selectedFiles opt vm').map own).Nodup := nodup.map_on fun f hf g hg same => injective hf hg same
      have known : (selectedFiles opt vm').map own ⊆ selectedNames opt vm' := by
        intro name mem
        obtain ⟨f, hf, rfl⟩ := List.mem_map.mp mem
        obtain ⟨w, here, same⟩ := localFile_ne_none_iff.mp (by rw [kept f hf]; simp : localFile _ (own f) ≠ none)
        rw [← order, ← same]
        exact List.mem_map_of_mem here
      have := (List.subperm_of_subset owns known).length_le
      rwa [List.length_map] at this
    have tops : (selectedNames opt vm').length ≤ ((selectedFiles opt vm').filter fun f => f.folder = []).length := by
      have known : selectedNames opt vm' ⊆ ((selectedFiles opt vm').filter fun f => f.folder = []).map (·.name) := by
        intro name mem
        obtain ⟨f, hf, rfl⟩ := mem_selectedNames.mp mem
        obtain ⟨_, _, _, _, _, g, hg, top, same⟩ := (managed f hf).2
        have chosen : g ∈ selectedFiles opt vm' :=
          List.mem_filter.mpr ⟨hg, same ▸ (List.mem_filter.mp hf).2⟩
        exact List.mem_map.mpr ⟨g, List.mem_filter.mpr ⟨chosen, decide_eq_true top⟩, same⟩
      have := (List.subperm_of_subset (nodup_selectedNames opt vm') known).length_le
      rwa [List.length_map] at this
    have all := List.length_filter_eq_length_iff.mp (le_antisymm (List.length_filter_le ..) (fits.trans tops))
    exact fun f hf => of_decide_eq_true (all f hf)
  · intro top
    refine ⟨fun f => f.name, ?_, ?_, ?_⟩
    · intro f hf g hg same
      have key : (f.folder, f.name) = (g.folder, g.name) := by rw [top f hf, top g hg, show f.name = g.name from same]
      exact List.inj_on_of_nodup_map vm'.folder.distinct (List.mem_filter.mp hf).1 (List.mem_filter.mp hg).1 key
    · intro f hf
      have mem : f.name ∈ selectedNames opt vm' := mem_selectedNames.mpr ⟨f, hf, rfl⟩
      rw [localFile_eq (order.symm ▸ mem) contents, fetchName_eq_read (fetched f.name mem)]
      exact read_dsPath (List.mem_filter.mp hf).1 (top f hf) folderRel
    · intro w mem
      have named : w.1 ∈ selectedNames opt vm' := order ▸ List.mem_map_of_mem mem
      obtain ⟨f, hf, same⟩ := mem_selectedNames.mp named
      exact ⟨f, hf, same⟩

/-- Every selected file is fetched, whichever transport is used, exactly when the call ends before a download, nothing
is selected, or `govc` fails on a selected file, as the HTTPS transport does on each: the two entry points never fetch
the same files. Where more files than the limit have fewer names than that, `govc` has to fail on the first one. -/
theorem fetches_iff (client : Client α) (opt : ExportOptions) :
    Fetches client opt ↔ ∀ vm, client.Reaches vm → WithinLimit opt vm → selectedFiles opt vm ≠ [] → Stuck client opt vm := by
  constructor
  · intro fetches vm reaches within some
    obtain ⟨vm', folderRel, reaches', -, folder, written, returned⟩ :=
      (downloadVmFolder_cases client opt false).resolve_left fun h => h.2.2 vm reaches within
    have same : vm' = vm := Option.some.inj (reaches'.found.symm.trans reaches.found)
    subst same
    refine ⟨fun fail => ?_, fun limited more => ?_⟩
    · by_contra all
      push Not at all
      have raised := (loop_raised_iff fail folder false).mpr fun f mem => ⟨rfl, all f mem⟩
      have tree := fetches.same fail (.inl (returned.mpr raised))
      rw [force_written, downloadOnlyVm, written] at tree
      have nothing : (loop client opt vm' false folderRel).written = [] := by
        rw [List.eq_nil_iff_forall_not_mem]
        intro w mem
        have there : localFile (loop client opt vm' false folderRel).written w.1 ≠ none :=
          localFile_ne_none_iff.mpr ⟨w, mem, rfl⟩
        rw [tree] at there
        exact there rfl
      -- the least of the selected names has been downloaded
      obtain ⟨first, others, names⟩ := List.exists_cons_of_ne_nil (selectedNames_eq_nil_iff.not.mpr some)
      have head : first ∈ (selectedNames opt vm').take 1 := by simp [names]
      obtain ⟨f, mem, -, least⟩ := mem_take_one_selectedNames.mp head
      exact (loop_written_eq_nil_iff folder).mp nothing f mem (fun _ => least) (all f mem)
    · have empty := (fetches.limit vm' reaches.found limited more).1
      exact (loop_written_eq_nil_iff folder).mp (written.symm.trans empty)
  · intro stuck
    have nothing (fail : opt.failOnMissing = true) (forceHttps : Bool)
        (ok : (downloadVmFolder client opt forceHttps).result = .ok ()) (forceHttps' : Bool) :
        (downloadVmFolder client opt forceHttps').written = [] := by
      cases found : client.vm with
      | none =>
        rcases downloadVmFolder_cases client opt forceHttps with ⟨-, failed, -⟩ | ⟨vm, _, reaches, -⟩
        · exact absurd ok failed
        · exact absurd (found.symm.trans reaches.found) (by simp)
      | some vm =>
        exact written_eq_nil_of_selectedFiles found (selectedFiles_eq_nil_of_ok fail found (stuck vm) ok) forceHttps'
    refine ⟨fun fail vm found forceHttps ok => ?_, fun fail ok => ?_, fun vm found limited more => ⟨?_, force_written ..⟩⟩
    · rw [nothing fail forceHttps ok, selectedFiles_eq_nil_of_ok fail found (stuck vm) ok]
      exact ⟨fun f => f.name, by simp, by simp, by simp⟩
    · rcases ok with ok | ok
      · rw [downloadOnlyVm, downloadOnlyVmForceHttps, nothing fail _ ok, nothing fail _ ok]
      · rw [downloadOnlyVm, downloadOnlyVmForceHttps, nothing fail _ ok, nothing fail _ ok]
    · rcases downloadVmFolder_cases client opt false with ⟨empty, -, -⟩ | ⟨vm', folderRel, reaches, within, folder, written, -⟩
      · exact empty
      · have same : vm' = vm := Option.some.inj (reaches.found.symm.trans found)
        subst same
        by_cases empty : selectedFiles opt vm' = []
        · exact written_eq_nil_of_selectedFiles found empty false
        · exact written.trans ((loop_written_eq_nil_iff folder).mpr ((stuck vm' reaches within empty).nothing limited more))

/-- A VM with one disk in its folder, and a `govc` that works. -/
def flat : Client Nat where
  si := true
  vm := some ⟨"[ds] vm/vm.vmx".toList, ⟨[⟨[], "vm.vmdk".toList, 7⟩], by decide, by decide⟩⟩
  datacenter := some "dc".toList
  browser := true
  downloadDc := some
  govc := some fun _ => true

/-- `govc` downloads the disk, and the forced transport fails. -/
theorem not_fetches_flat : ¬Fetches flat { failOnMissing := true } := by
  intro fetches
  have ok : (downloadOnlyVm flat { failOnMissing := true }).result = .ok () := rfl
  have written : (downloadOnlyVm flat { failOnMissing := true }).written = [("vm.vmdk".toList, 7)] := rfl
  have tree := fetches.same rfl (.inl ok)
  rw [force_written, written] at tree
  exact absurd (congrFun tree "vm.vmdk".toList) (by decide)

theorem exact_flat : ∃ vm, flat.vm = some vm ∧
    Exact (selectedFiles { failOnMissing := true } vm) (downloadOnlyVm flat { failOnMissing := true }).written :=
  ⟨_, rfl, (exact_iff rfl rfl rfl).mpr (by decide)⟩

end property

end H2kvm.Vmware
