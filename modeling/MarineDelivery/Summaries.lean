import MarineDelivery.Calls
import MarineDelivery.Manifest
import MarineDelivery.Overview

/-!
What is shown of a response, beside what is shown of the delivery that was POSTed.

The tool prints the counts of its response when a call returns, and later, asked for the status,
the counts of the manifest. A file that was put can be missing in the manifest, when no file was
requested under the string of its path: then, and only then, the two differ.
-/

namespace MarineDelivery.Summaries

open MarineDelivery.PathLib MarineDelivery.PathLib.PosixPath MarineDelivery.Errors
open MarineDelivery.Common MarineDelivery.Domain MarineDelivery.Validation MarineDelivery.S3
open MarineDelivery.OrderedDict MarineDelivery.Traced MarineDelivery.Core
open MarineDelivery.Calls MarineDelivery.Manifest
open MarineDelivery.Overview (textOf totals)

/-! ### Responses -/

structure GetSummaryResponse where
  message : String
  uploads : ℕ
  failedUploads : ℕ
  deletes : ℕ

def ResponseUpload.getSummary (self : ResponseUpload) : GetSummaryResponse where
  message := self.filesUploaded.foldl
    (fun message file => message ++ s!"\t[UPLOAD] {file.1.str} -> {file.2}\n") ""
  uploads := self.filesUploaded.length
  failedUploads := self.filesFailed.length
  deletes := 0

def ResponseDelete.getSummary (self : ResponseDelete) : GetSummaryResponse where
  message := self.filesToDelete.foldl
    (fun message file => message ++ s!"\t[DELETE] {file.keySuffix.1}\n") ""
  uploads := 0
  failedUploads := 0
  deletes := self.filesToDelete.length

def OperationResponse.getSummary : OperationResponse → GetSummaryResponse
  | .upload response => ResponseUpload.getSummary response
  | .delete response => ResponseDelete.getSummary response

/-- One turn of the loop over the responses of a delivery. -/
def GetSummaryResponse.add (summary responseSummary : GetSummaryResponse) :
    GetSummaryResponse where
  message := summary.message ++ responseSummary.message
  uploads := summary.uploads + responseSummary.uploads
  failedUploads := summary.failedUploads + responseSummary.failedUploads
  deletes := summary.deletes + responseSummary.deletes

def ResponseDelivery.getSummary (self : ResponseDelivery) : GetSummaryResponse :=
  self.operationsResponses.foldl
    (fun summary response => summary.add (OperationResponse.getSummary response)) ⟨"", 0, 0, 0⟩

/-- `file` or `files`. -/
def filesWord (n : ℕ) : String := if n ≠ 1 then "files" else "file"

/-- `__str__`, with the summary of the subclass. -/
def BaseResponse.str (self : BaseResponse) (summary : GetSummaryResponse) : String :=
  let dryRun := self.dryRun.getD false
  let pre := if dryRun then "[DRY RUN] " else ""
  let verb := if dryRun then "would be" else "have been"
  let sawUploadOperation := summary.uploads ≠ 0 ∨ summary.failedUploads ≠ 0
  let deletesMessage :=
    if summary.deletes ≠ 0 then
      s!"{summary.deletes} {filesWord summary.deletes} to delete"
    else ""
  let deletesMessage :=
    if sawUploadOperation ∧ deletesMessage ≠ "" then ", " ++ deletesMessage else deletesMessage
  let uploadsMessage :=
    if sawUploadOperation then
      if dryRun then s!"{summary.uploads} {filesWord summary.uploads} to upload"
      else s!"{summary.uploads} files uploaded"
    else ""
  let failedUploadsMessage :=
    if summary.failedUploads ≠ 0 then
      s!", {summary.failedUploads} {filesWord summary.failedUploads} failed to upload"
    else ""
  (if dryRun then s!"\n{pre}The following operations {verb} submitted:\n" ++ summary.message
    else "") ++
  s!"\n{pre}Delivery summary:\n\n" ++
  s!"\tdelivery_id: {textOf self.deliveryId}\n" ++
  s!"\tpushing_entity_id: {textOf self.pushingEntityId}\n" ++
  s!"\tproduct_id: {textOf self.productId}\n" ++
  s!"\tdataset_id: {textOf self.datasetId}\n" ++
  s!"\n\tTotal: {uploadsMessage}{failedUploadsMessage}{deletesMessage}.\n" ++
  if summary.failedUploads ≠ 0 then
    s!"\n{pre}WARNING: {summary.failedUploads} {filesWord summary.failedUploads} " ++
      "failed to upload. The delivery completed with errors, check the logs for details.\n"
  else ""

def ResponseUpload.str (self : ResponseUpload) : String :=
  BaseResponse.str self.toBaseResponse (ResponseUpload.getSummary self)

def ResponseDelete.str (self : ResponseDelete) : String :=
  BaseResponse.str self.toBaseResponse (ResponseDelete.getSummary self)

def ResponseDelivery.str (self : ResponseDelivery) : String :=
  BaseResponse.str self.toBaseResponse (ResponseDelivery.getSummary self)

/-- A count of a response is the sum of the counts of its operations. -/
lemma getSummary_eq_sum {count : GetSummaryResponse → ℕ} (hzero : count ⟨"", 0, 0, 0⟩ = 0)
    (h : ∀ summary s, count (summary.add s) = count summary + count s)
    (self : ResponseDelivery) :
    count (ResponseDelivery.getSummary self) =
      (self.operationsResponses.map fun r => count (OperationResponse.getSummary r)).sum := by
  have hloop := Overview.foldl_eq_add_sum (fun t r => h t (OperationResponse.getSummary r))
    self.operationsResponses ⟨"", 0, 0, 0⟩
  rwa [hzero, zero_add] at hloop

/-! ### One operation -/

/-- The paths an operation asks to put, each once. -/
def requestedPaths : RequestedOperation → ℕ
  | .upload u => (u.files.map ofString).dedup.length
  | .delete _ => 0

def requestedDeletes : RequestedOperation → ℕ
  | .upload _ => 0
  | .delete d => d.files.length

/-- The path of every file that is put is requested as it is written. -/
def Written (dryRun : Bool) (run : PosixPath → FileRun) : RequestedOperation → Prop
  | .upload u => ∀ f ∈ u.files, (∃ eTag, verdict dryRun (run (ofString f)) = .ok eTag) →
      (ofString f).str ∈ u.files
  | .delete _ => True

/-- What an operation is in the manifest and in the response: all paths are accounted for in the
response, and the manifest may have fewer of the uploads. -/
structure Counted (dryRun : Bool) (run : PosixPath → FileRun) (op : RequestedOperation)
    (o : Operation) (r : OperationResponse) : Prop where
  requested : (OperationResponse.getSummary r).uploads +
    (OperationResponse.getSummary r).failedUploads = requestedPaths op
  deletes : (OperationResponse.getSummary r).deletes = requestedDeletes op
  totalDeletes : (Overview.Operation.getSummary o).totalDeletes = requestedDeletes op
  le : (Overview.Operation.getSummary o).totalUploads ≤ (OperationResponse.getSummary r).uploads
  eq_iff : (Overview.Operation.getSummary o).totalUploads =
    (OperationResponse.getSummary r).uploads ↔ Written dryRun run op
  fresh : (Overview.Operation.getSummary o).failedUploads = 0 ∧
    (Overview.Operation.getSummary o).failedDeletes = 0

section

variable {dryRun raiseOnError : Bool} {run : PosixPath → FileRun} {files : List String}
variable {did pid ds : String} {anchor : Option String}

/-- A file that settles is uploaded or failed. -/
lemma length_settled {items : List (PosixPath × String)}
    (h : ∀ item ∈ items, Settles raiseOnError (verdict dryRun (run item.1))) :
    (items.filterMap (successOf dryRun run)).length +
      (items.filterMap (errorOf dryRun run)).length = items.length := by
  induction items with
  | nil => rfl
  | cons item items ih =>
      obtain ⟨p, key⟩ := item
      obtain ⟨hitem, hitems⟩ := List.forall_mem_cons.mp h
      have hrest := ih hitems
      cases hv : verdict dryRun (run p) with
      | ok eTag =>
          rw [List.filterMap_cons_some (successOf_ok hv),
            List.filterMap_cons_none (errorOf_ok hv), List.length_cons, List.length_cons]
          omega
      | error e =>
          rw [hv] at hitem
          obtain ⟨reason, hr⟩ := extractErrorMessage_ok_iff.mpr hitem.2
          rw [List.filterMap_cons_none (successOf_error hv),
            List.filterMap_cons_some (errorOf_error hv hr), List.length_cons, List.length_cons]
          omega

lemma length_ingestionKeys :
    (ingestionKeys did pid ds anchor files).items.length = (files.map ofString).dedup.length := by
  have hperm : (ingestionKeys did pid ds anchor files).keys.Perm (files.map ofString).dedup := by
    refine (List.perm_ext_iff_of_nodup (Dict.nodup_keys _) (List.nodup_dedup _)).mpr fun p => ?_
    rw [mem_keys_ingestionKeys, List.mem_dedup]
  have hlength := hperm.length_eq
  rwa [Dict.keys, List.length_map] at hlength

/-- The paths that are put, each once. -/
lemma mem_putPaths {completed : List (PosixPath × String)}
    (hc : completed.Perm (ingestionKeys did pid ds anchor files).items) {p : PosixPath} :
    p ∈ (completed.filterMap (successOf dryRun run)).map (·.localPath) ↔
      p ∈ files.map ofString ∧ ∃ eTag, verdict dryRun (run p) = .ok eTag := by
  constructor
  · intro h
    obtain ⟨s, hs, rfl⟩ := List.mem_map.mp h
    obtain ⟨item, hitem, hsome⟩ := List.mem_filterMap.mp hs
    obtain ⟨eTag, hv, rfl⟩ := successOf_eq_some hsome
    obtain ⟨f, hf, rfl⟩ := mem_ingestionKeys (hc.mem_iff.mp hitem)
    exact ⟨List.mem_map_of_mem hf, eTag, hv⟩
  · rintro ⟨hp, eTag, hv⟩
    obtain ⟨key, hkey⟩ := Dict.mem_keys_iff.mp (mem_keys_ingestionKeys.mpr hp)
    have hitem := hc.mem_iff.mpr (Dict.mem_items_iff.mpr hkey)
    exact List.mem_map.mpr ⟨_, List.mem_filterMap.mpr ⟨_, hitem, successOf_ok hv⟩, rfl⟩

/-- The paths of the files that are found in the manifest. -/
lemma mem_foundPaths {p : PosixPath} :
    p ∈ (files.filter fun f => (ownS3File dryRun run (ingestionKeys did pid ds anchor files)
        f).isSome).map ofString ↔
      p.str ∈ files ∧ ∃ eTag, verdict dryRun (run p) = .ok eTag := by
  constructor
  · intro h
    obtain ⟨f, hf, rfl⟩ := List.mem_map.mp h
    obtain ⟨hmem, hown⟩ := List.mem_filter.mp hf
    obtain ⟨s, hs⟩ := Option.isSome_iff_exists.mp hown
    obtain ⟨hstr, key, -, hsome⟩ := ownS3File_eq_some hs
    obtain ⟨eTag, hv, -⟩ := successOf_eq_some hsome
    exact ⟨hstr.symm ▸ hmem, eTag, hv⟩
  · rintro ⟨hp, eTag, hv⟩
    refine List.mem_map.mpr ⟨p.str, List.mem_filter.mpr ⟨hp, ?_⟩, ofString_str p⟩
    have hkeys : p ∈ (ingestionKeys did pid ds anchor files).keys :=
      mem_keys_ingestionKeys.mpr (List.mem_map.mpr ⟨p.str, hp, ofString_str p⟩)
    obtain ⟨key, hkey⟩ := Dict.mem_keys_iff.mp hkeys
    rw [ownS3File, ofString_str, if_pos rfl, hkey, Option.bind_some, successOf_ok hv]
    rfl

/-- **The manifest has an upload less for every path that is put and not written.** -/
lemma length_found {completed : List (PosixPath × String)}
    (hc : completed.Perm (ingestionKeys did pid ds anchor files).items) (hnodup : files.Nodup) :
    let found := files.filter fun f =>
      (ownS3File dryRun run (ingestionKeys did pid ds anchor files) f).isSome
    let put := completed.filterMap (successOf dryRun run)
    found.length ≤ put.length ∧
      (found.length = put.length ↔ Written dryRun run (.upload ⟨files, anchor⟩)) := by
  intro found put
  have hfound : (found.map ofString).Nodup := by
    refine List.Nodup.map_on (fun f hf g hg he => ?_) (hnodup.filter _)
    have hstr : ∀ f ∈ found, (ofString f).str = f := fun f hf => by
      obtain ⟨s, hs⟩ := Option.isSome_iff_exists.mp (List.mem_filter.mp hf).2
      exact (ownS3File_eq_some hs).1
    rw [← hstr f hf, he, hstr g hg]
  have hput : (put.map (·.localPath)).Nodup := by
    have hp : completed.Pairwise fun a b => a.1 ≠ b.1 :=
      List.pairwise_map.mp ((hc.map Prod.fst).nodup_iff.mpr (Dict.nodup_keys _))
    refine List.pairwise_map.mpr (hp.filterMap _ fun a b hab s hs t ht => ?_)
    obtain ⟨_, -, rfl⟩ := successOf_eq_some hs
    obtain ⟨_, -, rfl⟩ := successOf_eq_some ht
    exact hab
  have hsub : found.map ofString ⊆ put.map (·.localPath) := by
    intro p hp
    obtain ⟨hstr, hv⟩ := mem_foundPaths.mp hp
    exact (mem_putPaths hc).mpr ⟨List.mem_map.mpr ⟨p.str, hstr, ofString_str p⟩, hv⟩
  have hsubperm := List.subperm_of_subset hfound hsub
  have hle := hsubperm.length_le
  rw [List.length_map, List.length_map] at hle
  refine ⟨hle, fun heq f hf hv => ?_, fun hwritten => hle.antisymm ?_⟩
  · have hperm := hsubperm.perm_of_length_le (by rw [List.length_map, List.length_map, heq])
    have hmem := (mem_putPaths hc).mpr ⟨List.mem_map_of_mem hf, hv⟩
    exact (mem_foundPaths.mp (hperm.mem_iff.mpr hmem)).1
  · have hback : put.map (·.localPath) ⊆ found.map ofString := by
      intro p hp
      obtain ⟨hmem, hv⟩ := (mem_putPaths hc).mp hp
      obtain ⟨f, hf, rfl⟩ := List.mem_map.mp hmem
      exact mem_foundPaths.mpr ⟨hwritten f hf hv, hv⟩
    have hlength := (List.subperm_of_subset hput hback).length_le
    rwa [List.length_map, List.length_map] at hlength

/-- Entries that have just been built have no error. -/
lemma erroredFileNames_of_built {found : List (FileToUpload × S3File)} {us : List UploadFile}
    (h : List.Forall₂ (fun x u => manifestFile ds x.1 x.2 = .ok u) found us) :
    Overview.erroredFileNames (us.map fun u => (u.keySuffix, u.errorMessage)) = [] := by
  rw [Overview.erroredFileNames, List.filterMap_eq_nil_iff]
  intro x hx
  obtain ⟨u, hu, rfl⟩ := List.mem_map.mp hx
  obtain ⟨y, -, hy⟩ := forall₂_right h hu
  rw [(manifestFile_ok_iff.mp hy).2]
  rfl

end

section

variable {uploads : Uploads} {args : CallArgs} {client : S3Client} {did pe : String} {i : ℕ}
variable {fs : FileSystem}

lemma counted_delete {requested : Delete} {operation : DeleteOperation}
    (hop : createAndValidateDeleteOperation requested.files = .ok operation) :
    Counted args.dryRun (uploads.run i) (.delete requested) (.delete operation)
      (.delete (ResponseDelete.create did args.productId args.datasetId pe args.dryRun
        operation.files)) := by
  unfold createAndValidateDeleteOperation DeleteFile.create at hop
  simp only [bind_eq_ok, mapM_ok_iff, pure_eq_ok] at hop
  obtain ⟨_, -, files, hfiles, rfl⟩ := hop
  have hlength : files.length = requested.files.length := hfiles.length_eq.symm
  have hfresh : Overview.erroredFileNames (files.map fun f => (f.keySuffix, f.errorMessage)) =
      [] := by
    rw [Overview.erroredFileNames, List.filterMap_eq_nil_iff]
    intro x hx
    obtain ⟨f, hf, rfl⟩ := List.mem_map.mp hx
    obtain ⟨s, -, k, -, rfl⟩ := forall₂_right hfiles hf
    rfl
  exact ⟨rfl, hlength, hlength, le_refl 0, ⟨fun _ => trivial, fun _ => rfl⟩, rfl,
    congrArg List.length hfresh⟩

lemma counted_upload {requested : Upload} {op : ToUploadOperation} {res : PutFilesResult}
    {operation : UploadOperation}
    (hop : createAndValidateToUploadOperation fs requested.files args.datasetId args.productId
      requested.anchor = .ok op)
    (h : (putFilesToIngestionSystem uploads i client did args op.anchor op).result =
      .ok (res, operation)) :
    Counted args.dryRun (uploads.run i) (.upload requested) (.upload operation)
      (.upload (ResponseUpload.create did args.productId args.datasetId pe args.dryRun res)) := by
  obtain ⟨-, hnodup, -, rfl⟩ := createAndValidateToUploadOperation_ok_iff.mp hop
  obtain ⟨-, -, hset, -, rfl, -, hus⟩ :=
    (putFilesToIngestionSystem_ok_iff (map_localPath_fileToUpload fs requested.files)).mp h
  have hc := uploads.completed_perm i
    (ingestionKeys did args.productId args.datasetId requested.anchor requested.files).items
  have hentries := (entries_of_found fs hus).length_eq
  obtain ⟨hle, hiff⟩ := @length_found args.dryRun (uploads.run i) _ _ _ _ _ _ hc hnodup
  have hput : ∀ res : PutFilesResult, (ResponseUpload.create did args.productId args.datasetId pe
      args.dryRun res).filesUploaded.length = res.successfulFiles.length := fun res => by
    rw [ResponseUpload.create, length_sortLists, List.length_map]
  refine ⟨?_, rfl, rfl, ?_, ?_, congrArg List.length (erroredFileNames_of_built hus), rfl⟩
  · show (ResponseUpload.create _ _ _ _ _ _).filesUploaded.length + _ = _
    rw [hput, requestedPaths, ← @length_ingestionKeys _ did args.productId args.datasetId
      requested.anchor, ← hc.length_eq]
    exact length_settled fun item hitem => hset item (hc.mem_iff.mp hitem)
  · show operation.files.length ≤ (ResponseUpload.create _ _ _ _ _ _).filesUploaded.length
    rw [hput, ← hentries]
    exact hle
  · show operation.files.length = (ResponseUpload.create _ _ _ _ _ _).filesUploaded.length ↔ _
    rw [hput, ← hentries]
    exact hiff

/-- **One operation counted.** -/
lemma counted_of_processed {op : RequestedOperation} {p : PendingOperation} {o : Operation}
    {r : OperationResponse} (hv : validateOperation fs args op = .ok p)
    (h : (processOperation uploads client pe did args i p).result = .ok (o, r)) :
    Counted args.dryRun (uploads.run i) op o r := by
  cases op with
  | delete requested =>
      obtain ⟨operation, hop, he⟩ := bind_eq_ok.mp hv
      cases he
      cases h
      exact counted_delete hop
  | upload requested =>
      obtain ⟨operation, hop, he⟩ := bind_eq_ok.mp hv
      cases he
      obtain ⟨⟨res, posted⟩, hput, he⟩ := Comp.bind_result_eq_ok.mp h
      cases he
      exact counted_upload hop hput

end

/-! ### The whole delivery -/

lemma sum_map_le {α : Type} {f g : α → ℕ} {l : List α} (h : ∀ x ∈ l, f x ≤ g x) :
    (l.map f).sum ≤ (l.map g).sum ∧
      ((l.map f).sum = (l.map g).sum ↔ ∀ x ∈ l, f x = g x) := by
  induction l with
  | nil => simp
  | cons a l ih =>
      obtain ⟨ha, hl⟩ := List.forall_mem_cons.mp h
      obtain ⟨hle, hiff⟩ := ih hl
      simp only [List.map_cons, List.sum_cons, List.forall_mem_cons, ← hiff]
      omega

/-- The counts of a response, those of its delivery, and what was requested. -/
structure Tallies (args : CallArgs) (uploads : Uploads) (operations : List RequestedOperation)
    (response : ResponseDelivery) (d : Delivery) : Prop where
  requested : (ResponseDelivery.getSummary response).uploads +
    (ResponseDelivery.getSummary response).failedUploads = (operations.map requestedPaths).sum
  deletes : (ResponseDelivery.getSummary response).deletes =
    (operations.map requestedDeletes).sum
  totalDeletes : (totals d).totalDeletes = (operations.map requestedDeletes).sum
  le : (totals d).totalUploads ≤ (ResponseDelivery.getSummary response).uploads
  eq_iff : (totals d).totalUploads = (ResponseDelivery.getSummary response).uploads ↔
    ∀ i op, operations[i]? = some op → Written args.dryRun (uploads.run i) op
  fresh : (totals d).failedUploads = 0 ∧ (totals d).failedDeletes = 0 ∧
    (totals d).failedOrPartiallyFailedOperations = 0

lemma sum_map_congr {α β : Type} {R : α → β → Prop} {f : α → ℕ} {g : β → ℕ} {l : List α}
    {l' : List β} (h : List.Forall₂ R l l') (hfg : ∀ a b, R a b → g b = f a) :
    (l'.map g).sum = (l.map f).sum := by
  induction h with
  | nil => rfl
  | cons hab _ ih => rw [List.map_cons, List.map_cons, List.sum_cons, List.sum_cons, ih,
      hfg _ _ hab]

variable {world : World} {uploads : Uploads} {args : CallArgs}
variable {operations : List RequestedOperation}

/-- Every operation of a delivery that returns is counted. -/
lemma counted_of_delivery {response : ResponseDelivery} {d : Delivery}
    (h : (delivery world uploads args operations).result = .ok (response, d)) :
    ∃ processed : List (Operation × OperationResponse),
      response.operationsResponses = processed.map Prod.snd ∧
      d.operations = processed.map Prod.fst ∧ operations.length = processed.length ∧
      ∀ i op x, operations[i]? = some op → processed[i]? = some x →
        Counted args.dryRun (uploads.run i) op x.1 x.2 := by
  rw [delivery_eq] at h
  obtain ⟨⟨session, pending⟩, hprep, h⟩ := Comp.bind_result_eq_ok.mp h
  obtain ⟨⟨responses, d'⟩, hrun, he⟩ := Comp.bind_result_eq_ok.mp h
  cases he
  obtain ⟨processed, hloop, rfl, rfl, -⟩ := runPending_ok _ _ _ hrun
  obtain ⟨-, hforall⟩ := prepareDelivery_ok _ _ hprep
  obtain ⟨hlength, hbody⟩ := Comp.eachFrom_result_ok.mp hloop
  refine ⟨processed, rfl, rfl, hforall.length_eq.trans hlength, fun i op x hop hx => ?_⟩
  obtain ⟨p, hp, hv⟩ := forall₂_getElem? hforall hop
  have hdone := hbody i p x hp hx
  rw [Nat.zero_add] at hdone
  exact counted_of_processed hv hdone

/-- **What is printed at the end of a call is what the status of its delivery says**: the
response accounts for every path that was requested, its deletes are those of the delivery, and
so are its uploads, exactly if every path that was put is requested as it is written. -/
theorem tallies_of_delivery {response : ResponseDelivery} {d : Delivery}
    (h : (delivery world uploads args operations).result = .ok (response, d)) :
    Tallies args uploads operations response d := by
  obtain ⟨processed, hresponses, hoperations, hlength, hcounted⟩ := counted_of_delivery h
  have hforall : List.Forall₂ (fun op x => ∃ i, operations[i]? = some op ∧
      Counted args.dryRun (uploads.run i) op x.1 x.2) operations processed := by
    refine List.forall₂_iff_get.mpr ⟨hlength, fun i hi hi' => ⟨i, ?_, ?_⟩⟩
    · simp
    · exact hcounted i _ _ (by simp) (by simp)
  have hresponse : ∀ count : GetSummaryResponse → ℕ, count ⟨"", 0, 0, 0⟩ = 0 →
      (∀ summary s, count (summary.add s) = count summary + count s) →
      count (ResponseDelivery.getSummary response) =
        (processed.map fun x => count (OperationResponse.getSummary x.2)).sum := by
    intro count hzero hadd
    rw [getSummary_eq_sum hzero hadd, hresponses, List.map_map]
    rfl
  have hdelivery : ∀ (count : Overview.Totals → ℕ) (g : Overview.GetSummaryResponse → ℕ),
      count .zero = 0 → (∀ totals s, count (totals.add s) = count totals + g s) →
      count (totals d) = (processed.map fun x => g (Overview.Operation.getSummary x.1)).sum := by
    intro count g hzero hadd
    rw [Overview.totals_eq_sum hzero hadd, hoperations, List.map_map]
    rfl
  have huploads := hresponse (·.uploads) rfl fun _ _ => rfl
  have htotal := hdelivery (·.totalUploads) (·.totalUploads) rfl fun _ _ => rfl
  have hcount : ∀ x ∈ processed, ∃ i op, operations[i]? = some op ∧
      Counted args.dryRun (uploads.run i) op x.1 x.2 := by
    intro x hx
    obtain ⟨op, -, i, hop, hx⟩ := forall₂_right hforall hx
    exact ⟨i, op, hop, hx⟩
  obtain ⟨hle, hiff⟩ := sum_map_le (l := processed)
    (f := fun x => (Overview.Operation.getSummary x.1).totalUploads)
    (g := fun x => (OperationResponse.getSummary x.2).uploads) fun x hx => by
      obtain ⟨_, _, -, hx⟩ := hcount x hx
      exact hx.le
  have hfresh : ∀ (count : Overview.Totals → ℕ) (g : Overview.GetSummaryResponse → ℕ),
      count .zero = 0 → (∀ totals s, count (totals.add s) = count totals + g s) →
      (∀ s, s.failedUploads = 0 → s.failedDeletes = 0 → g s = 0) → count (totals d) = 0 := by
    intro count g hzero hadd hg
    rw [hdelivery count g hzero hadd]
    refine List.sum_eq_zero fun n hn => ?_
    obtain ⟨x, hx, rfl⟩ := List.mem_map.mp hn
    obtain ⟨_, _, -, hx⟩ := hcount x hx
    exact hg _ hx.fresh.1 hx.fresh.2
  refine ⟨?_, ?_, ?_, ?_, ?_, ?_, ?_, ?_⟩
  · rw [huploads, hresponse (·.failedUploads) rfl fun _ _ => rfl, ← List.sum_map_add]
    exact sum_map_congr hforall fun op x ⟨_, _, hx⟩ => hx.requested
  · rw [hresponse (·.deletes) rfl fun _ _ => rfl]
    exact sum_map_congr hforall fun op x ⟨_, _, hx⟩ => hx.deletes
  · rw [hdelivery (·.totalDeletes) (·.totalDeletes) rfl fun _ _ => rfl]
    exact sum_map_congr hforall fun op x ⟨_, _, hx⟩ => hx.totalDeletes
  · rw [htotal, huploads]
    exact hle
  · rw [htotal, huploads, hiff]
    constructor
    · intro hall i op hop
      have hi : i < processed.length := hlength ▸ (List.getElem?_eq_some_iff.mp hop).1
      have hx := hcounted i op processed[i] hop (by simp)
      exact hx.eq_iff.mp (hall _ (List.getElem_mem hi))
    · intro hall x hx
      obtain ⟨i, op, hop, hx⟩ := hcount x hx
      exact hx.eq_iff.mpr (hall i op hop)
  · exact hfresh (·.failedUploads) (·.failedUploads) rfl (fun _ _ => rfl) fun _ h _ => h
  · exact hfresh (·.failedDeletes) (·.failedDeletes) rfl (fun _ _ => rfl) fun _ _ h => h
  · exact hfresh (·.failedOrPartiallyFailedOperations)
      (fun s => if s.failedUploads ≠ 0 ∨ s.failedDeletes ≠ 0 then 1 else 0) rfl
      (fun _ _ => rfl) fun s h h' => by simp [h, h']

def exampleOperations : List RequestedOperation :=
  [.upload ⟨["./a.nc", "b.nc"], none⟩, .delete ⟨["c.nc"]⟩]

/-- Two files are put, and only one is written as its path is. -/
theorem tallies_of_delivery_spelled : ∃ response d, Tallies exampleArgs
    (exampleUploads (.success (some "t1"))) exampleOperations response d ∧
      (totals d).totalUploads = 1 := by
  have hreturns : ((delivery (exampleWorld [("./a.nc", 10), ("a.nc", 10), ("b.nc", 10)])
      (exampleUploads (.success (some "t1"))) exampleArgs exampleOperations).result.map fun x =>
        (totals x.2).totalUploads) = .ok 1 := by decide +kernel
  cases h : (delivery (exampleWorld [("./a.nc", 10), ("a.nc", 10), ("b.nc", 10)])
      (exampleUploads (.success (some "t1"))) exampleArgs exampleOperations).result with
  | error e =>
      rw [h] at hreturns
      cases hreturns
  | ok x =>
      rw [h] at hreturns
      exact ⟨x.1, x.2, tallies_of_delivery h, Except.ok.inj hreturns⟩

end MarineDelivery.Summaries
