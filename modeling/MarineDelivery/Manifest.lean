import MarineDelivery.Core

/-!
What one upload operation returns, in closed form.

The keys of its files are a dictionary by path; a requested file finds its put among the
successful ones when it is written as its path is. `putFilesToIngestionSystem_ok_iff` says
when the operation returns and what: everything later is read off it.
-/

namespace MarineDelivery.Manifest

open MarineDelivery.PathLib MarineDelivery.PathLib.PosixPath MarineDelivery.Errors
open MarineDelivery.Common MarineDelivery.Domain MarineDelivery.Validation MarineDelivery.S3
open MarineDelivery.OrderedDict MarineDelivery.Traced MarineDelivery.Core
open MarineDelivery.Segments

/-! ### The operation before its puts -/

/-- The entry of a file whose size is known. -/
def fileToUpload (fs : FileSystem) (file : String) : FileToUpload where
  fileSizeMb := ((fs.stat file).getD 0 : ℕ) / (1024 * 1024)
  localPath := file

lemma map_localPath_fileToUpload (fs : FileSystem) (files : List String) :
    (files.map (fileToUpload fs)).map (·.localPath) = files := by
  rw [List.map_map]
  exact List.map_id' files

lemma getsize_ok_iff {fs : FileSystem} {file : String} {size : ℕ} :
    getsize fs file = .ok size ↔ fs.stat file = some size := by
  unfold getsize
  cases fs.stat file <;> simp

lemma createAndValidateToUploadOperation_ok_iff {fs : FileSystem} {files : List String}
    {ds pid : String} {anchor : Option String} {op : ToUploadOperation} :
    createAndValidateToUploadOperation fs files ds pid anchor = .ok op ↔
      (∀ f ∈ files, invalidUploadFile fs ds pid anchor f = none) ∧ files.Nodup ∧
      (∀ f ∈ files, ∃ size, fs.stat f = some size) ∧
      op = ⟨files.map (fileToUpload fs), anchor⟩ := by
  have hfile : ∀ f ft, (do
      let size ← getsize fs f
      return ({ localPath := f, fileSizeMb := size / (1024 * 1024) } : FileToUpload) :
        Except PyError FileToUpload) = .ok ft ↔
      (∃ size, fs.stat f = some size) ∧ ft = fileToUpload fs f := by
    intro f ft
    simp only [bind_eq_ok, getsize_ok_iff, pure_eq_ok]
    constructor
    · rintro ⟨size, hs, rfl⟩
      exact ⟨⟨size, hs⟩, by simp [fileToUpload, hs]⟩
    · rintro ⟨⟨size, hs⟩, rfl⟩
      exact ⟨size, hs, by simp [fileToUpload, hs]⟩
  unfold createAndValidateToUploadOperation
  simp only [bind_eq_ok, mapM_ok_iff_map hfile]
  constructor
  · rintro ⟨⟨⟩, hv, fts, ⟨hs, rfl⟩, he⟩
    obtain ⟨hv, hd⟩ := validateUploadFiles_ok_iff.mp hv
    cases he
    exact ⟨hv, hd, hs, rfl⟩
  · rintro ⟨hv, hd, hs, rfl⟩
    exact ⟨(), validateUploadFiles_ok_iff.mpr ⟨hv, hd⟩, _, ⟨hs, rfl⟩, rfl⟩

/-! ### The keys -/

/-- The key suffix of a file, where it has one. -/
def keySuffixOf (anchor : Option String) (file : String) : String :=
  match localPathToKeySuffix file anchor with
  | .ok s => s
  | .error _ => ""

/-- The key a file is put to. -/
def ingestionKey (deliveryId productId datasetId : String) (anchor : Option String)
    (file : String) : String :=
  newDataBucketPath deliveryId productId datasetId (keySuffixOf anchor file)

/-- The mapping of an operation: of two spellings of one path, the last decides. -/
def ingestionKeys (deliveryId productId datasetId : String) (anchor : Option String)
    (files : List String) : Dict PosixPath String :=
  Dict.ofList (files.map fun f =>
    (ofString f, ingestionKey deliveryId productId datasetId anchor f))

variable {did pid ds : String} {anchor : Option String} {files : List String}

lemma keySuffixOf_of_ok {f s : String} (h : localPathToKeySuffix f anchor = .ok s) :
    keySuffixOf anchor f = s := by
  rw [keySuffixOf, h]

lemma keySuffixOf_none (f : String) : keySuffixOf none f = f := rfl

lemma getLocalPathS3KeysMapping_ok_iff {m : Dict PosixPath String} :
    getLocalPathS3KeysMapping files did pid ds anchor = .ok m ↔
      (∀ f ∈ files, ∃ s, localPathToKeySuffix f anchor = .ok s) ∧
      m = ingestionKeys did pid ds anchor files := by
  have hfile : ∀ f x, (do
      let fileName ← localPathToKeySuffix f anchor
      return (ofString f, newDataBucketPath did pid ds fileName) :
        Except PyError (PosixPath × String)) = .ok x ↔
      (∃ s, localPathToKeySuffix f anchor = .ok s) ∧
        x = (ofString f, ingestionKey did pid ds anchor f) := by
    intro f x
    simp only [bind_eq_ok, pure_eq_ok]
    constructor
    · rintro ⟨s, hs, rfl⟩
      exact ⟨⟨s, hs⟩, by rw [ingestionKey, keySuffixOf_of_ok hs]⟩
    · rintro ⟨⟨s, hs⟩, rfl⟩
      exact ⟨s, hs, by rw [ingestionKey, keySuffixOf_of_ok hs]⟩
  unfold getLocalPathS3KeysMapping
  simp only [bind_eq_ok, mapM_ok_iff_map hfile, pure_eq_ok]
  constructor
  · rintro ⟨_, ⟨hs, rfl⟩, rfl⟩
    exact ⟨hs, rfl⟩
  · rintro ⟨hs, rfl⟩
    exact ⟨_, ⟨hs, rfl⟩, rfl⟩

/-- A key comes from a requested file with that path. -/
lemma mem_ingestionKeys {item : PosixPath × String}
    (h : item ∈ (ingestionKeys did pid ds anchor files).items) :
    ∃ g ∈ files, item = (ofString g, ingestionKey did pid ds anchor g) := by
  obtain ⟨g, hg, rfl⟩ := List.mem_map.mp (Dict.mem_of_mem_ofList h)
  exact ⟨g, hg, rfl⟩

lemma mem_keys_ingestionKeys {p : PosixPath} :
    p ∈ (ingestionKeys did pid ds anchor files).keys ↔ p ∈ files.map ofString := by
  rw [ingestionKeys, Dict.mem_keys_ofList, List.map_map]
  rfl

/-- With an anchor, or without a path spelled twice, a file is put to its own key. -/
lemma ingestionKeys_get? {f : String} (hf : f ∈ files)
    (h : ∀ g ∈ files, ofString g = ofString f →
      ingestionKey did pid ds anchor g = ingestionKey did pid ds anchor f) :
    (ingestionKeys did pid ds anchor files).get? (ofString f) =
      some (ingestionKey did pid ds anchor f) := by
  refine Dict.get?_ofList_of_mem (List.mem_map.mpr ⟨f, hf, rfl⟩) fun w hw => ?_
  obtain ⟨g, hg, he⟩ := List.mem_map.mp hw
  obtain ⟨hp, rfl⟩ := Prod.mk.inj he
  exact h g hg hp

/-! ### The manifest of the operation -/

lemma manifestFile_ok_iff {ft : FileToUpload} {s : S3File} {u : UploadFile} :
    manifestFile ds ft s = .ok u ↔
      localPathToKeySuffix s.ingestionSystemS3Path (some ds) = .ok u.keySuffix.1 ∧
      u = ⟨u.keySuffix, none, pyInt ft.fileSizeMb, s.eTag, some s.uploadStartTime,
        some s.uploadEndTime⟩ := by
  unfold manifestFile UploadFile.create
  simp only [bind_eq_ok, ensureNormalizedKeySuffix_ok_iff, pure_eq_ok]
  constructor
  · rintro ⟨suffix, hs, k, rfl, rfl⟩
    exact ⟨hs, rfl⟩
  · rintro ⟨hs, hu⟩
    exact ⟨_, hs, _, rfl, hu.symm⟩

lemma manifestFile_isOk_iff {ft : FileToUpload} {s : S3File} :
    (∃ u, manifestFile ds ft s = .ok u) ↔
      acceptableKeySuffix s.ingestionSystemS3Path (some ds) = true := by
  rw [acceptableKeySuffix_iff]
  constructor
  · rintro ⟨u, hu⟩
    exact ⟨_, (manifestFile_ok_iff.mp hu).1, u.keySuffix.2⟩
  · rintro ⟨s, hs, hk⟩
    exact ⟨⟨⟨s, hk⟩, _, _, _, _, _⟩, manifestFile_ok_iff.mpr ⟨hs, rfl⟩⟩

/-- The entry a requested file finds among the successful ones: its own put, when the file is
written as its path is. -/
def ownS3File (dryRun : Bool) (run : PosixPath → FileRun) (keys : Dict PosixPath String)
    (file : String) : Option S3File :=
  if (ofString file).str = file then
    (keys.get? (ofString file)).bind fun key => successOf dryRun run (ofString file, key)
  else none

lemma ownS3File_eq_some {dryRun : Bool} {run : PosixPath → FileRun}
    {keys : Dict PosixPath String} {f : String} {put : S3File}
    (h : ownS3File dryRun run keys f = some put) :
    (ofString f).str = f ∧ ∃ key, (ofString f, key) ∈ keys.items ∧
      successOf dryRun run (ofString f, key) = some put := by
  unfold ownS3File at h
  split_ifs at h with hn
  obtain ⟨key, hkey, hs⟩ := Option.bind_eq_some_iff.mp h
  exact ⟨hn, key, Dict.mem_items_iff.mpr hkey, hs⟩

/-- **Looking a file up by its string.** -/
lemma successfulFilesDict_get? {dryRun : Bool} {run : PosixPath → FileRun}
    {keys : Dict PosixPath String} {completed : List (PosixPath × String)}
    (hc : completed.Perm keys.items) (f : String) :
    (Dict.ofList ((completed.filterMap (successOf dryRun run)).map fun file =>
      (file.localPath.str, file))).get? f = ownS3File dryRun run keys f := by
  have hnodup : (((completed.filterMap (successOf dryRun run)).map fun file =>
      (file.localPath.str, file)).map Prod.fst).Nodup := by
    have hp : completed.Pairwise fun a b => a.1 ≠ b.1 :=
      List.pairwise_map.mp ((hc.map Prod.fst).nodup_iff.mpr keys.nodup)
    rw [List.map_map]
    refine List.pairwise_map.mpr (hp.filterMap _ fun a b hab s hs t ht => ?_)
    obtain ⟨_, -, rfl⟩ := successOf_eq_some hs
    obtain ⟨_, -, rfl⟩ := successOf_eq_some ht
    exact fun e => hab (str_injective e)
  ext s
  rw [← Dict.mem_items_iff, Dict.items_ofList hnodup, ownS3File]
  constructor
  · intro hm
    obtain ⟨t, ht, he⟩ := List.mem_map.mp hm
    obtain ⟨item, hitem, hs⟩ := List.mem_filterMap.mp ht
    obtain ⟨rfl, rfl⟩ := Prod.mk.inj he
    obtain ⟨eTag, hv, rfl⟩ := successOf_eq_some hs
    have hk : keys.get? item.1 = some item.2 :=
      Dict.mem_items_iff.mp (hc.mem_iff.mp hitem)
    simp only [ofString_str, if_true, hk, Option.bind_some]
    exact hs
  · intro h
    split_ifs at h with hn
    · obtain ⟨key, hk, hs⟩ := Option.bind_eq_some_iff.mp h
      refine List.mem_map.mpr ⟨s, List.mem_filterMap.mpr ⟨_, ?_, hs⟩, ?_⟩
      · exact hc.mem_iff.mpr (Dict.mem_items_iff.mpr hk)
      · obtain ⟨_, -, rfl⟩ := successOf_eq_some hs
        simp only [hn]

/-- The requested files that are found, with what is found. -/
def foundFiles (dryRun : Bool) (run : PosixPath → FileRun) (keys : Dict PosixPath String)
    (op : ToUploadOperation) : List (FileToUpload × S3File) :=
  op.files.filterMap fun ft => (ownS3File dryRun run keys ft.localPath).map (ft, ·)

lemma mem_foundFiles (fs : FileSystem) {dryRun : Bool} {run : PosixPath → FileRun}
    {keys : Dict PosixPath String} {f key eTag : String} (hf : f ∈ files)
    (hn : (ofString f).str = f) (hk : keys.get? (ofString f) = some key)
    (hv : verdict dryRun (run (ofString f)) = .ok eTag) :
    (fileToUpload fs f, ⟨ofString f, key, eTag, (run (ofString f)).uploadStartTime,
        (run (ofString f)).uploadEndTime⟩) ∈
      foundFiles dryRun run keys ⟨files.map (fileToUpload fs), anchor⟩ := by
  refine List.mem_filterMap.mpr ⟨fileToUpload fs f, List.mem_map_of_mem hf, ?_⟩
  have ho : ownS3File dryRun run keys (fileToUpload fs f).localPath =
      successOf dryRun run (ofString f, key) := by
    rw [show (fileToUpload fs f).localPath = f from rfl, ownS3File, if_pos hn, hk,
      Option.bind_some]
  rw [ho, successOf_ok hv, Option.map_some]

lemma concludeUploads_ok_iff {dryRun : Bool} {run : PosixPath → FileRun}
    {keys : Dict PosixPath String} {completed : List (PosixPath × String)}
    (hc : completed.Perm keys.items) {op : ToUploadOperation} {errored : List ErrorFile}
    {res : PutFilesResult} {operation : UploadOperation} :
    concludeUploads op ds ⟨completed.filterMap (successOf dryRun run), errored⟩ =
        .ok (res, operation) ↔
      completed.filterMap (successOf dryRun run) ≠ [] ∧
      res = ⟨completed.filterMap (successOf dryRun run), errored⟩ ∧
      operation.operation = .upload ∧
      List.Forall₂ (fun x u => manifestFile ds x.1 x.2 = .ok u)
        (foundFiles dryRun run keys op) operation.files := by
  unfold concludeUploads
  by_cases hne : completed.filterMap (successOf dryRun run) = []
  · simp [hne]
  · rw [if_neg (by simpa using hne)]
    simp only [buildUploadOperationFromPutResults, successfulFilesDict_get? hc, bind_eq_ok,
      mapM_ok_iff, pure_eq_ok]
    constructor
    · rintro ⟨_, ⟨us, hus, rfl⟩, he⟩
      obtain ⟨rfl, rfl⟩ := Prod.mk.inj he
      exact ⟨hne, rfl, rfl, hus⟩
    · rintro ⟨-, rfl, ho, hus⟩
      obtain ⟨_, us⟩ := operation
      exact ⟨_, ⟨us, hus, rfl⟩, by rw [← ho]⟩

/-- The entries of the manifest belong to the files that were found, in the order of the
request. -/
lemma entries_of_found (fs : FileSystem) {dryRun : Bool} {run : PosixPath → FileRun}
    {keys : Dict PosixPath String} {us : List UploadFile}
    (h : List.Forall₂ (fun x u => manifestFile ds x.1 x.2 = .ok u)
      (foundFiles dryRun run keys ⟨files.map (fileToUpload fs), anchor⟩) us) :
    List.Forall₂ (fun f u => ∃ s, ownS3File dryRun run keys f = some s ∧
        manifestFile ds (fileToUpload fs f) s = .ok u)
      (files.filter fun f => (ownS3File dryRun run keys f).isSome) us := by
  rw [foundFiles, List.filterMap_map] at h
  induction files generalizing us with
  | nil => simpa using h
  | cons f l ih =>
      have hf : (fileToUpload fs f).localPath = f := rfl
      cases ho : ownS3File dryRun run keys f with
      | none =>
          rw [List.filterMap_cons, Function.comp_apply, hf, ho, Option.map_none] at h
          rw [List.filter_cons, ho, Option.isSome_none, if_neg Bool.false_ne_true]
          exact ih h
      | some s =>
          rw [List.filterMap_cons, Function.comp_apply, hf, ho, Option.map_some] at h
          rw [List.filter_cons, ho, Option.isSome_some, if_pos rfl]
          cases h with
          | cons hu h => exact .cons ⟨s, ho, hu⟩ (ih h)

/-- **When an upload operation returns, and what.** -/
theorem putFilesToIngestionSystem_ok_iff {uploads : Uploads} {n : ℕ} {client : S3Client}
    {args : CallArgs} {op : ToUploadOperation} {res : PutFilesResult}
    {operation : UploadOperation} (hfiles : op.files.map (·.localPath) = files) :
    let keys := ingestionKeys did args.productId args.datasetId anchor files
    let run := uploads.run n
    let completed := uploads.completed n keys.items
    (putFilesToIngestionSystem uploads n client did args anchor op).result =
        .ok (res, operation) ↔
      (∀ f ∈ files, ∃ s, localPathToKeySuffix f anchor = .ok s) ∧
      0 < args.maxConcurrentUploads ∧
      (∀ item ∈ keys.items,
        Settles args.raiseOnUploadError (verdict args.dryRun (run item.1))) ∧
      completed.filterMap (successOf args.dryRun run) ≠ [] ∧
      res = ⟨completed.filterMap (successOf args.dryRun run),
        completed.filterMap (errorOf args.dryRun run)⟩ ∧
      operation.operation = .upload ∧
      List.Forall₂ (fun x u => manifestFile args.datasetId x.1 x.2 = .ok u)
        (foundFiles args.dryRun run keys op) operation.files := by
  subst hfiles
  intro keys run completed
  have hperm : completed.Perm keys.items := uploads.completed_perm n keys.items
  unfold putFilesToIngestionSystem
  simp only [Comp.bind_result_eq_ok, Comp.lift_result, getLocalPathS3KeysMapping_ok_iff,
    uploadMultipleFiles_ok_iff]
  constructor
  · rintro ⟨_, ⟨hs, rfl⟩, _, ⟨hw, hset, rfl⟩, hc⟩
    obtain ⟨hne, hres, ho, hf⟩ := (concludeUploads_ok_iff hperm).mp hc
    exact ⟨hs, hw, hset, hne, hres, ho, hf⟩
  · rintro ⟨hs, hw, hset, hne, hres, ho, hf⟩
    exact ⟨_, ⟨hs, rfl⟩, _, ⟨hw, hset, rfl⟩,
      (concludeUploads_ok_iff hperm).mpr ⟨hne, hres, ho, hf⟩⟩

/-- The calls for a file of the mapping are among the events of its operation. -/
lemma mem_putFilesToIngestionSystem_events {uploads : Uploads} {n : ℕ} {client : S3Client}
    {args : CallArgs} {op : ToUploadOperation} {item : PosixPath × String} {e : Event}
    (hfiles : op.files.map (·.localPath) = files)
    (hs : ∀ f ∈ files, ∃ s, localPathToKeySuffix f anchor = .ok s)
    (hw : 0 < args.maxConcurrentUploads)
    (hitem : item ∈ (ingestionKeys did args.productId args.datasetId anchor files).items)
    (he : e ∈ putEvents ((uploadFile (putCall client n args.chunkSizeBytes item)
      (uploads.run n item.1).toUploadTimes item.2 item.1 args.dryRun
        args.raiseOnUploadError).exchange (uploads.run n item.1).attempts)) :
    e ∈ (putFilesToIngestionSystem uploads n client did args anchor op).events := by
  subst hfiles
  have hkeys : getLocalPathS3KeysMapping (op.files.map (·.localPath)) did args.productId
      args.datasetId anchor = .ok (ingestionKeys did args.productId args.datasetId anchor _) :=
    getLocalPathS3KeysMapping_ok_iff.mpr ⟨hs, rfl⟩
  exact Comp.mem_bind_right ((Comp.lift_result _).trans hkeys)
    (Comp.mem_bind_left (mem_uploadMultipleFiles_events hw hitem he))

/-- Nothing else is among them. -/
lemma exists_of_mem_putFilesToIngestionSystem_events {uploads : Uploads} {n : ℕ}
    {client : S3Client} {args : CallArgs} {op : ToUploadOperation} {e : Event}
    (hfiles : op.files.map (·.localPath) = files)
    (h : e ∈ (putFilesToIngestionSystem uploads n client did args anchor op).events) :
    ∃ item ∈ (ingestionKeys did args.productId args.datasetId anchor files).items,
      e ∈ putEvents ((uploadFile (putCall client n args.chunkSizeBytes item)
        (uploads.run n item.1).toUploadTimes item.2 item.1 args.dryRun
          args.raiseOnUploadError).exchange (uploads.run n item.1).attempts) := by
  subst hfiles
  rcases Comp.mem_bind h with h | ⟨keys, hkeys, h⟩
  · cases h
  · obtain ⟨-, rfl⟩ := getLocalPathS3KeysMapping_ok_iff.mp hkeys
    rcases Comp.mem_bind h with h | ⟨_, -, h⟩
    · exact exists_of_mem_uploadMultipleFiles_events h
    · cases h

/-- Nothing is POSTed while the operations are processed. -/
lemma posted_notMem_processOperation {uploads : Uploads} {client : S3Client} {pe did : String}
    {args : CallArgs} {i : ℕ} {p : PendingOperation} {d : Delivery} :
    Event.posted d ∉ (processOperation uploads client pe did args i p).events := by
  cases p with
  | delete op => exact List.not_mem_nil
  | upload op =>
      intro h
      rw [processOperation, Comp.bind_pure_events] at h
      obtain ⟨item, -, h⟩ := exists_of_mem_putFilesToIngestionSystem_events rfl h
      obtain ⟨x, -, hx⟩ := List.mem_flatMap.mp h
      simp at hx

/-! ### When every put succeeds -/

/-- Every put of the run succeeds, with an `e_tag`. -/
def AllPut (dryRun : Bool) (run : PosixPath → FileRun) : Prop :=
  ∀ p, ∃ eTag, verdict dryRun (run p) = .ok eTag

lemma allPut_dry (run : PosixPath → FileRun) : AllPut true run := fun _ => ⟨"dry-run", rfl⟩

section AllPut

variable {dryRun : Bool} {run : PosixPath → FileRun}

lemma filterMap_errorOf (h : AllPut dryRun run) (l : List (PosixPath × String)) :
    l.filterMap (errorOf dryRun run) = [] := by
  refine List.filterMap_eq_nil_iff.mpr fun item _ => ?_
  obtain ⟨eTag, hv⟩ := h item.1
  exact errorOf_ok hv

/-- Every item comes back among the successful files. -/
lemma map_successOf (h : AllPut dryRun run) (l : List (PosixPath × String)) :
    (l.filterMap (successOf dryRun run)).map
      (fun file => (file.localPath, file.ingestionSystemS3Path)) = l := by
  induction l with
  | nil => rfl
  | cons item l ih =>
      obtain ⟨eTag, hv⟩ := h item.1
      rw [List.filterMap_cons, successOf_ok hv, List.map_cons, ih]

lemma uploadMultipleFiles_allPut {client : S3Client} {uploads : Uploads} {n : ℕ}
    {keys : Dict PosixPath String} {raiseOnError : Bool} {chunkSize workers : ℤ}
    (h : AllPut dryRun (uploads.run n)) :
    (uploadMultipleFiles client uploads n keys raiseOnError chunkSize workers dryRun).result =
      if workers ≤ 0 then .error (.valueError "max_workers must be greater than 0")
      else .ok ⟨(uploads.completed n keys.items).filterMap
        (successOf dryRun (uploads.run n)), []⟩ := by
  split_ifs with hw
  · rw [uploadMultipleFiles, if_pos hw, Comp.throw_result]
  · refine uploadMultipleFiles_ok_iff.mpr ⟨not_le.mp hw, fun item _ => ?_, ?_⟩
    · obtain ⟨eTag, hv⟩ := h item.1
      rw [hv]
      trivial
    · rw [filterMap_errorOf h]

end AllPut

end MarineDelivery.Manifest
