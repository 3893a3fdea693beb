import Mathlib.Data.List.Perm.Basic
import MarineDelivery.Manifest

/-!
From the request to the manifest: which requested files an upload operation accounts for.

A request is a list of strings, the puts are made path by path, and the manifest is found by
string again. The account is complete exactly when these three ways of naming a file agree on
the request.
-/

namespace MarineDelivery.Conservation

open MarineDelivery.PathLib MarineDelivery.PathLib.PosixPath MarineDelivery.Errors
open MarineDelivery.Common MarineDelivery.Domain MarineDelivery.Validation MarineDelivery.S3
open MarineDelivery.OrderedDict MarineDelivery.Traced MarineDelivery.Core
open MarineDelivery.Manifest

variable {fs : FileSystem} {run : PosixPath → FileRun} {files : List String}

/-- The put of a requested file succeeded. -/
def succeeded (run : PosixPath → FileRun) (file : String) : Bool :=
  match verdict false (run (ofString file)) with
  | .ok _ => true
  | .error _ => false

/-- Key suffix, size, checksum and times of a file of the manifest. -/
def entryData (u : UploadFile) :
    Except PyError String × ℤ × String × Option String × Option String :=
  (.ok u.keySuffix.1, u.fileSizeMb, u.checksum, u.uploadStartTime, u.uploadEndTime)

/-- What the key of a requested file is stripped to, its size, `e_tag` and times of its own
put. -/
def ownData (fs : FileSystem) (run : PosixPath → FileRun) (did pid ds : String)
    (anchor : Option String) (file : String) :
    Except PyError String × ℤ × String × Option String × Option String :=
  (localPathToKeySuffix (ingestionKey did pid ds anchor file) (some ds),
    pyInt (fileToUpload fs file).fileSizeMb,
    match verdict false (run (ofString file)) with
    | .ok eTag => eTag
    | .error _ => "",
    some (run (ofString file)).uploadStartTime, some (run (ofString file)).uploadEndTime)

/-- **Every requested file is accounted for once**: as the entry of the manifest at its place
when its put succeeded, as an errored file when it failed; and the response reports as many
uploads as the manifest has. -/
def Conserves (fs : FileSystem) (run : PosixPath → FileRun) (files : List String)
    (did pid ds : String) (anchor : Option String)
    (result : Except PyError (PutFilesResult × UploadOperation)) : Prop :=
  ∃ res operation, result = .ok (res, operation) ∧
    operation.files.map entryData =
      (files.filter (succeeded run)).map (ownData fs run did pid ds anchor) ∧
    (res.erroredFiles.map (·.localPath)).Perm
      ((files.filter fun f => !succeeded run f).map ofString) ∧
    ∀ pe, (ResponseUpload.create did pid ds pe false res).filesUploaded.length =
      operation.files.length

/-- No path is requested twice; a file that was put is written as its path is and its key
leads back to a key suffix; a failed put says something. -/
def Accountable (run : PosixPath → FileRun) (files : List String)
    (did pid ds : String) (anchor : Option String) : Prop :=
  (files.map ofString).Nodup ∧
  ∀ f ∈ files,
    match verdict false (run (ofString f)) with
    | .ok _ => (ofString f).str = f ∧
        acceptableKeySuffix (ingestionKey did pid ds anchor f) (some ds) = true
    | .error e => e.text ≠ ""

/-! ### The lists side by side -/

lemma succeeded_ok {f eTag : String} (h : verdict false (run (ofString f)) = .ok eTag) :
    succeeded run f = true := by
  rw [succeeded, h]

lemma succeeded_error {f : String} {e : PutFailure}
    (h : verdict false (run (ofString f)) = .error e) : succeeded run f = false := by
  rw [succeeded, h]

lemma isSome_successOf (f key : String) :
    (successOf false run (ofString f, key)).isSome = succeeded run f := by
  cases h : verdict false (run (ofString f)) with
  | ok eTag => rw [successOf_ok h, succeeded_ok h]; rfl
  | error e => rw [successOf_error h, succeeded_error h]; rfl

/-- What the manifest says of a file that was found. -/
def foundData (ds : String) (x : FileToUpload × S3File) :
    Except PyError String × ℤ × String × Option String × Option String :=
  (localPathToKeySuffix x.2.ingestionSystemS3Path (some ds), pyInt x.1.fileSizeMb, x.2.eTag,
    some x.2.uploadStartTime, some x.2.uploadEndTime)

lemma map_entryData {ds : String} {found : List (FileToUpload × S3File)} {us : List UploadFile}
    (h : List.Forall₂ (fun x u => manifestFile ds x.1 x.2 = .ok u) found us) :
    us.map entryData = found.map (foundData ds) := by
  induction h with
  | nil => rfl
  | cons hu _ ih =>
      obtain ⟨hkey, hentry⟩ := manifestFile_ok_iff.mp hu
      rw [List.map_cons, List.map_cons, ih, foundData, hkey, hentry]
      rfl

lemma filter_map_eq_filterMap {α β : Type} (p : α → Bool) (g : α → β) (l : List α) :
    (l.filter p).map g = l.filterMap fun a => if p a then some (g a) else none := by
  induction l with
  | nil => rfl
  | cons a l ih => by_cases h : p a = true <;> simp [h, ih]

variable {did pid ds : String} {anchor : Option String}

lemma items_ingestionKeys (h : (files.map ofString).Nodup) :
    (ingestionKeys did pid ds anchor files).items =
      files.map fun f => (ofString f, ingestionKey did pid ds anchor f) :=
  Dict.items_ofList (by rwa [List.map_map])

/-- Each file of an accountable request finds its own put, if that succeeded. -/
lemma ownS3File_of_accountable (h : Accountable run files did pid ds anchor) {f : String}
    (hf : f ∈ files) :
    ownS3File false run (ingestionKeys did pid ds anchor files) f =
      successOf false run (ofString f, ingestionKey did pid ds anchor f) := by
  obtain ⟨hn, hall⟩ := h
  have hk : (ingestionKeys did pid ds anchor files).get? (ofString f) =
      some (ingestionKey did pid ds anchor f) := by
    refine ingestionKeys_get? hf fun g hg he => ?_
    rw [List.inj_on_of_nodup_map hn hg hf he]
  have hv := hall f hf
  rw [ownS3File, hk, Option.bind_some]
  cases hverdict : verdict false (run (ofString f)) with
  | ok eTag =>
      rw [hverdict] at hv
      rw [if_pos hv.1]
  | error e => rw [successOf_error hverdict, ite_self]

lemma foundFiles_of_accountable (h : Accountable run files did pid ds anchor) :
    foundFiles false run (ingestionKeys did pid ds anchor files)
        ⟨files.map (fileToUpload fs), anchor⟩ =
      files.filterMap fun f =>
        (successOf false run (ofString f, ingestionKey did pid ds anchor f)).map
          (fileToUpload fs f, ·) := by
  rw [foundFiles, List.filterMap_map]
  refine List.filterMap_congr fun f hf => ?_
  simp only [Function.comp_apply, fileToUpload, ownS3File_of_accountable h hf]

lemma map_foundData :
    (files.filterMap fun f =>
        (successOf false run (ofString f, ingestionKey did pid ds anchor f)).map
          (fileToUpload fs f, ·)).map (foundData ds) =
      (files.filter (succeeded run)).map (ownData fs run did pid ds anchor) := by
  rw [List.map_filterMap, filter_map_eq_filterMap]
  refine List.filterMap_congr fun f _ => ?_
  cases h : verdict false (run (ofString f)) with
  | ok eTag => simp [successOf_ok h, succeeded_ok h, foundData, ownData, h]
  | error e => simp [successOf_error h, succeeded_error h]

lemma map_localPath_errorOf (key : String → String)
    (h : ∀ f ∈ files, ∀ e, verdict false (run (ofString f)) = .error e → e.text ≠ "") :
    ((files.map fun f => (ofString f, key f)).filterMap (errorOf false run)).map
        (·.localPath) =
      (files.filter fun f => !succeeded run f).map ofString := by
  rw [List.filterMap_map, List.map_filterMap, filter_map_eq_filterMap]
  refine List.filterMap_congr fun f hf => ?_
  cases hv : verdict false (run (ofString f)) with
  | ok eTag => simp [errorOf_ok hv, succeeded_ok hv]
  | error e =>
      obtain ⟨reason, hr⟩ := extractErrorMessage_ok_iff.mpr (h f hf e hv)
      simp [errorOf_error hv hr, succeeded_error hv]

lemma length_filterMap_successOf (key : String → String) :
    ((files.map fun f => (ofString f, key f)).filterMap (successOf false run)).length =
      (files.filter (succeeded run)).length := by
  rw [List.filterMap_map, List.length_filterMap_eq_countP, List.countP_eq_length_filter]
  congr 1
  exact List.filter_congr fun f _ => isSome_successOf f _

/-! ### When the account is complete -/

variable {uploads : Uploads} {n : ℕ} {client : S3Client} {args : CallArgs}

/-- Every file of an accountable request that was put has an entry. -/
lemma exists_entries (fs : FileSystem) (h : Accountable run files did pid ds anchor) :
    ∃ us, List.Forall₂ (fun x u => manifestFile ds x.1 x.2 = .ok u)
      (foundFiles false run (ingestionKeys did pid ds anchor files)
        ⟨files.map (fileToUpload fs), anchor⟩) us := by
  rw [foundFiles_of_accountable h]
  refine exists_forall₂ fun x hx => ?_
  obtain ⟨f, hf, hx⟩ := List.mem_filterMap.mp hx
  obtain ⟨s, hs, rfl⟩ := Option.map_eq_some_iff.mp hx
  obtain ⟨eTag, hv, rfl⟩ := successOf_eq_some hs
  have hv' := h.2 f hf
  rw [hv] at hv'
  exact manifestFile_isOk_iff.mpr hv'.2

lemma conserves_of_accountable (hdry : args.dryRun = false)
    (hraise : args.raiseOnUploadError = false) (hw : 0 < args.maxConcurrentUploads)
    (hsuffix : ∀ f ∈ files, ∃ s, localPathToKeySuffix f anchor = .ok s)
    (hsome : ∃ f ∈ files, succeeded (uploads.run n) f = true)
    (h : Accountable (uploads.run n) files did args.productId args.datasetId anchor) :
    Conserves fs (uploads.run n) files did args.productId args.datasetId anchor
      (putFilesToIngestionSystem uploads n client did args anchor
        ⟨files.map (fileToUpload fs), anchor⟩).result := by
  have hperm := uploads.completed_perm n
    (ingestionKeys did args.productId args.datasetId anchor files).items
  have hperm' := hperm.trans (.of_eq (items_ingestionKeys h.1))
  have herr : ∀ f ∈ files, ∀ e, verdict false (uploads.run n (ofString f)) = .error e →
      e.text ≠ "" := fun f hf e he => by simpa [he] using h.2 f hf
  obtain ⟨us, hus⟩ := exists_entries fs h
  have hlen := (hperm'.filterMap (successOf false (uploads.run n))).length_eq
  rw [length_filterMap_successOf] at hlen
  have hdata := map_entryData hus
  rw [foundFiles_of_accountable h, map_foundData] at hdata
  have hcount : us.length = (files.filter (succeeded (uploads.run n))).length := by
    simpa using congrArg List.length hdata
  refine ⟨_, ⟨.upload, us⟩, (putFilesToIngestionSystem_ok_iff
    (map_localPath_fileToUpload fs files)).mpr ⟨hsuffix, hw, ?_, ?_, rfl, rfl, ?_⟩,
    hdata, ?_, ?_⟩
  · rw [hdry, hraise]
    intro item hitem
    obtain ⟨g, hg, rfl⟩ := mem_ingestionKeys hitem
    cases hv : verdict false (uploads.run n (ofString g)) with
    | ok eTag => trivial
    | error e => exact ⟨rfl, herr g hg e hv⟩
  · obtain ⟨f, hf, hs⟩ := hsome
    rw [hdry, ← List.length_pos_iff, hlen]
    exact List.length_pos_of_mem (List.mem_filter.mpr ⟨hf, hs⟩)
  · rw [hdry]
    exact hus
  · rw [hdry, ← map_localPath_errorOf (ingestionKey did args.productId args.datasetId anchor) herr]
    exact (hperm'.filterMap _).map _
  · intro pe
    rw [ResponseUpload.create, length_sortLists, List.length_map, hdry, hlen]
    exact hcount.symm

lemma of_isSome_ownS3File {keys : Dict PosixPath String} {f : String}
    (h : (ownS3File false run keys f).isSome = true) :
    (ofString f).str = f ∧ succeeded run f = true := by
  unfold ownS3File at h
  split_ifs at h with hn
  · obtain ⟨s, hs⟩ := Option.isSome_iff_exists.mp h
    obtain ⟨k, -, hk⟩ := Option.bind_eq_some_iff.mp hs
    rw [← isSome_successOf f k, hk]
    exact ⟨hn, rfl⟩
  · cases h

/-- When the manifest has an entry for every file that was put, each of them was found. -/
lemma isSome_of_entries {keys : Dict PosixPath String} {us : List UploadFile}
    (hus : List.Forall₂ (fun x u => manifestFile ds x.1 x.2 = .ok u)
      (foundFiles false run keys ⟨files.map (fileToUpload fs), anchor⟩) us)
    (hdata : us.map entryData =
      (files.filter (succeeded run)).map (ownData fs run did pid ds anchor))
    {f : String} (hf : f ∈ files) (hs : succeeded run f = true) :
    (ownS3File false run keys f).isSome = true := by
  have hsub : (files.filter fun f => (ownS3File false run keys f).isSome).Sublist
      (files.filter (succeeded run)) :=
    List.monotone_filter_right files fun f hf => (of_isSome_ownS3File hf).2
  have hlen : (files.filter fun f => (ownS3File false run keys f).isSome).length =
      (files.filter (succeeded run)).length := by
    have hd := congrArg List.length hdata
    rw [List.length_map, List.length_map] at hd
    rw [← hd, ← hus.length_eq, foundFiles, List.length_filterMap_eq_countP, List.countP_map,
      List.countP_eq_length_filter]
    congr 1
    exact List.filter_congr fun f _ => by simp [fileToUpload]
  have hm : f ∈ files.filter (succeeded run) := List.mem_filter.mpr ⟨hf, hs⟩
  rw [← hsub.eq_of_length hlen] at hm
  exact (List.mem_filter.mp hm).2

/-- When every failed file has an error of its own, no path was requested twice. -/
lemma nodup_of_errors {keys : Dict PosixPath String} {completed : List (PosixPath × String)}
    (hc : completed.Perm keys.items) (hn : files.Nodup)
    (hnormal : ∀ f ∈ files, succeeded run f = true → (ofString f).str = f)
    (herr : ((completed.filterMap (errorOf false run)).map (·.localPath)).Perm
      ((files.filter fun f => !succeeded run f).map ofString)) :
    (files.map ofString).Nodup := by
  have hkeys : ((completed.filterMap (errorOf false run)).map (·.localPath)).Nodup := by
    have hp : completed.Pairwise fun a b => a.1 ≠ b.1 :=
      List.pairwise_map.mp ((hc.map Prod.fst).nodup_iff.mpr keys.nodup)
    refine List.pairwise_map.mpr (hp.filterMap _ fun a b hab s hs t ht => ?_)
    rwa [errorOf_localPath hs, errorOf_localPath ht]
  refine List.Nodup.map_on (fun f hf g hg he => ?_) hn
  have hfg : succeeded run f = succeeded run g := by rw [succeeded, he, succeeded]
  by_cases hs : succeeded run f = true
  · rw [← hnormal f hf hs, he, hnormal g hg (hfg ▸ hs)]
  · exact List.inj_on_of_nodup_map (herr.nodup_iff.mp hkeys)
      (List.mem_filter.mpr ⟨hf, by simpa using hs⟩)
      (List.mem_filter.mpr ⟨hg, by simpa [← hfg] using hs⟩) he

lemma accountable_of_conserves (hdry : args.dryRun = false) (hn : files.Nodup)
    (h : Conserves fs (uploads.run n) files did args.productId args.datasetId anchor
      (putFilesToIngestionSystem uploads n client did args anchor
        ⟨files.map (fileToUpload fs), anchor⟩).result) :
    0 < args.maxConcurrentUploads ∧
      Accountable (uploads.run n) files did args.productId args.datasetId anchor := by
  obtain ⟨res, operation, hres, hdata, herrored, -⟩ := h
  obtain ⟨-, hw, hset, -, rfl, -, hus⟩ :=
    (putFilesToIngestionSystem_ok_iff (map_localPath_fileToUpload fs files)).mp hres
  rw [hdry] at hset hus herrored
  have hfound := fun f (hf : f ∈ files) => isSome_of_entries hus hdata hf
  have hnormal := fun f hf hs => (of_isSome_ownS3File (hfound f hf hs)).1
  have hnodup := nodup_of_errors (uploads.completed_perm n _) hn hnormal herrored
  refine ⟨hw, hnodup, fun f hf => ?_⟩
  have hkey : (ingestionKeys did args.productId args.datasetId anchor files).get? (ofString f) =
      some (ingestionKey did args.productId args.datasetId anchor f) :=
    ingestionKeys_get? hf fun g hg he => by rw [List.inj_on_of_nodup_map hnodup hg hf he]
  cases hv : verdict false (uploads.run n (ofString f)) with
  | error e =>
      have hsettles := hset _ (Dict.mem_items_iff.mpr hkey)
      rw [hv] at hsettles
      exact hsettles.2
  | ok eTag =>
      have hs := hnormal f hf (succeeded_ok hv)
      refine ⟨hs, ?_⟩
      obtain ⟨u, -, hu⟩ := forall₂_left hus (mem_foundFiles _ hf hs hkey hv)
      have hk := manifestFile_isOk_iff.mp ⟨u, hu⟩
      exact hk

/-- **Conservation holds exactly on accountable requests**: for an operation the validation
accepted, with some put successful and no raising on errors, every requested file is accounted
for once if and only if the request is accountable and there is a worker. -/
theorem conserves_iff {op : ToUploadOperation}
    (hop : createAndValidateToUploadOperation fs files args.datasetId args.productId anchor =
      .ok op)
    (hdry : args.dryRun = false) (hraise : args.raiseOnUploadError = false)
    (hsome : ∃ f ∈ files, succeeded (uploads.run n) f = true) :
    Conserves fs (uploads.run n) files did args.productId args.datasetId anchor
        (putFilesToIngestionSystem uploads n client did args anchor op).result ↔
      0 < args.maxConcurrentUploads ∧
      Accountable (uploads.run n) files did args.productId args.datasetId anchor := by
  obtain ⟨hvalid, hn, -, rfl⟩ := createAndValidateToUploadOperation_ok_iff.mp hop
  refine ⟨accountable_of_conserves hdry hn, fun ⟨hw, h⟩ => ?_⟩
  exact conserves_of_accountable hdry hraise hw
    (fun f hf => localPathToKeySuffix_of_valid (hvalid f hf)) hsome h

/-- One file, written as its path is. -/
theorem conserves_iff_plain :
    Conserves (exampleWorld [("a.nc", 10)]).fileSystem
        ((exampleUploads (.success (some "t1"))).run 0) ["a.nc"] "d1" "prod" "dset" none
        (putFilesToIngestionSystem (exampleUploads (.success (some "t1"))) 0 exampleClient "d1"
          exampleArgs none
          ⟨[fileToUpload (exampleWorld [("a.nc", 10)]).fileSystem "a.nc"], none⟩).result ↔
      0 < exampleArgs.maxConcurrentUploads ∧
      Accountable ((exampleUploads (.success (some "t1"))).run 0) ["a.nc"] "d1" "prod" "dset"
        none :=
  conserves_iff (by decide +kernel) rfl rfl ⟨"a.nc", by decide, by decide⟩

/-- A leading `./` before the anchor is enough: the file is accepted and put, and then not found
by its string. -/
theorem not_conserves_spelled :
    let fs := (exampleWorld [("./anc/a.nc", 10), ("anc/a.nc", 10)]).fileSystem
    let uploads := exampleUploads (.success (some "t1"))
    let op : ToUploadOperation := ⟨[fileToUpload fs "./anc/a.nc"], some "anc"⟩
    createAndValidateToUploadOperation fs ["./anc/a.nc"] "dset" "prod" (some "anc") = .ok op ∧
    succeeded (uploads.run 0) "./anc/a.nc" = true ∧
    ¬ Conserves fs (uploads.run 0) ["./anc/a.nc"] "d1" "prod" "dset" (some "anc")
        (putFilesToIngestionSystem uploads 0 exampleClient "d1" exampleArgs (some "anc")
          op).result := by
  intro fs uploads op
  have hs : succeeded (uploads.run 0) "./anc/a.nc" = true := by decide
  refine ⟨by decide +kernel, hs, ?_⟩
  rintro ⟨res, operation, hres, hdata, -⟩
  have hfiles : operation.files = [] := by
    have h : (putFilesToIngestionSystem uploads 0 exampleClient "d1" exampleArgs (some "anc")
        op).result =
        .ok (⟨[⟨ofString "anc/a.nc", "data/d1/prod/dset/a.nc", "t1", "10:00", "10:01"⟩], []⟩,
          ⟨.upload, []⟩) := by decide +kernel
    rw [h] at hres
    cases hres
    rfl
  simp [hfiles, hs] at hdata

end MarineDelivery.Conservation
