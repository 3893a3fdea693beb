import MarineDelivery.Manifest

/-!
The uploads of an operation may finish in any order.

Two runs in which every file fares the same differ in the order of the futures only. The lists
of results are permuted, and nothing that looks a file up or sorts the files can tell them apart.
With `raise_on_error` the order decides which exception is raised, not whether one is.
-/

namespace MarineDelivery.Completion

open MarineDelivery.PathLib MarineDelivery.Errors MarineDelivery.Common MarineDelivery.Domain
open MarineDelivery.OrderedDict MarineDelivery.Traced MarineDelivery.S3 MarineDelivery.Core
open MarineDelivery.Manifest

def exceptionClass : PyError → String
  | .invalidDeliveryIdsError _ => "InvalidDeliveryIdsError"
  | .invalidFilesError _ => "InvalidFilesError"
  | .invalidDeliverySizeError _ _ => "InvalidDeliverySizeError"
  | .noSuccessfulUploadsError _ => "NoSuccessfulUploadsError"
  | .validationError _ _ _ => "ValidationError"
  | .valueError _ => "ValueError"
  | .indexError _ => "IndexError"
  | .attributeError _ => "AttributeError"
  | .osError _ => "OSError"
  | .noSuchBucketException _ => "NoSuchBucketException"
  | .connectionRefusedException _ => "ConnectionRefusedException"
  | .authenticationError _ => "AuthenticationError"
  | .keyError _ => "KeyError"
  | .typeError _ => "TypeError"
  | .other _ => "Exception"

/-- Two results that a caller cannot tell apart, up to the order of the failed files. -/
inductive Agree : Except PyError (PutFilesResult × UploadOperation) →
    Except PyError (PutFilesResult × UploadOperation) → Prop
  | raised {e e' : PyError} (hclass : exceptionClass e = exceptionClass e') :
    Agree (.error e) (.error e')
  | returned {res res' : PutFilesResult} {operation operation' : UploadOperation}
    (hoperation : operation = operation')
    (huploaded : ∀ did pid ds pe dry,
      (ResponseUpload.create did pid ds pe dry res).filesUploaded =
        (ResponseUpload.create did pid ds pe dry res').filesUploaded)
    (hfailed : ∀ did pid ds pe dry,
      (ResponseUpload.create did pid ds pe dry res).filesFailed.Perm
        (ResponseUpload.create did pid ds pe dry res').filesFailed) :
    Agree (.ok (res, operation)) (.ok (res', operation'))

lemma Agree.of_error (e : PyError) : Agree (.error e) (.error e) := .raised rfl

/-! ### The futures -/

/-- The loop over the futures of these items, in this order, without `raise_on_error`. -/
def collected (dryRun : Bool) (run : PosixPath → FileRun)
    (call : PosixPath × String → ℕ → PutCall) (items : List (PosixPath × String)) :
    Except PyError PutFilesResult :=
  collectResults (items.map fun item =>
    (uploadFile (call item) (run item.1).toUploadTimes item.2 item.1 dryRun false).result
      (run item.1).attempts) {}

section

variable {dryRun : Bool} {run : PosixPath → FileRun} {call : PosixPath × String → ℕ → PutCall}

lemma mem_of_collectResults_error {l : List (Except PyError FileResult)} {acc : PutFilesResult}
    {e : PyError} (h : collectResults l acc = .error e) : .error e ∈ l := by
  induction l generalizing acc with
  | nil => cases h
  | cons r l ih =>
      rcases r with e' | (file | file)
      · cases h
        exact List.mem_cons_self
      · exact List.mem_cons_of_mem _ (ih h)
      · exact List.mem_cons_of_mem _ (ih h)

/-- Without `raise_on_error` a future can only fail to find a line in the exception's text. -/
lemma onUploadError_error {file : PosixPath} {e : PutFailure} {x : PyError}
    (h : onUploadError false file e = .error x) : exceptionClass x = "IndexError" := by
  unfold onUploadError at h
  rw [if_neg Bool.false_ne_true] at h
  cases hr : extractErrorMessage e.text with
  | ok reason => rw [hr] at h; cases h
  | error y =>
      rw [hr] at h
      cases h
      unfold extractErrorMessage at hr
      split at hr
      · cases hr
      · split_ifs at hr
        cases hr
        rfl

lemma collected_error {items : List (PosixPath × String)} {x : PyError}
    (h : collected dryRun run call items = .error x) : exceptionClass x = "IndexError" := by
  obtain ⟨item, -, hitem⟩ := List.mem_map.mp (mem_of_collectResults_error h)
  rw [uploadFile_result] at hitem
  cases hv : verdict dryRun (run item.1) with
  | ok eTag => rw [hv] at hitem; cases hitem
  | error e => rw [hv] at hitem; exact onUploadError_error hitem

lemma collected_of_settles {items : List (PosixPath × String)}
    (h : ∀ item ∈ items, Settles false (verdict dryRun (run item.1))) :
    collected dryRun run call items = .ok ⟨items.filterMap (successOf dryRun run),
      items.filterMap (errorOf dryRun run)⟩ :=
  collectResults_ok_iff.mpr ⟨h, rfl⟩

lemma collected_of_not_settles {items : List (PosixPath × String)}
    (h : ¬ ∀ item ∈ items, Settles false (verdict dryRun (run item.1))) :
    ∃ x, collected dryRun run call items = .error x := by
  cases hc : collected dryRun run call items with
  | error x => exact ⟨x, rfl⟩
  | ok res => exact absurd (collectResults_ok_iff.mp hc).1 h

/-- The two loops over the futures: both raise alike, or both sort all files into two lists. -/
lemma collected_perm {items items' : List (PosixPath × String)} (hperm : items.Perm items') :
    (∃ x x', collected dryRun run call items = .error x ∧
      collected dryRun run call items' = .error x' ∧
      exceptionClass x = exceptionClass x') ∨
    (collected dryRun run call items = .ok ⟨items.filterMap (successOf dryRun run),
        items.filterMap (errorOf dryRun run)⟩ ∧
      collected dryRun run call items' = .ok ⟨items'.filterMap (successOf dryRun run),
        items'.filterMap (errorOf dryRun run)⟩) := by
  have hsettles : (∀ item ∈ items, Settles false (verdict dryRun (run item.1))) ↔
      ∀ item ∈ items', Settles false (verdict dryRun (run item.1)) := by
    simp only [hperm.mem_iff]
  by_cases h : ∀ item ∈ items, Settles false (verdict dryRun (run item.1))
  · exact .inr ⟨collected_of_settles h, collected_of_settles (hsettles.mp h)⟩
  · obtain ⟨x, hx⟩ := collected_of_not_settles h
    obtain ⟨x', hx'⟩ := collected_of_not_settles (mt hsettles.mpr h)
    exact .inl ⟨x, x', hx, hx', (collected_error hx).trans (collected_error hx').symm⟩

end

/-! ### The operation -/

/-- What is made of the results looks the files up one by one. -/
lemma concludeUploads_agree {dryRun : Bool} {run : PosixPath → FileRun}
    {keys : Dict PosixPath String} {completed completed' : List (PosixPath × String)}
    (hc : completed.Perm keys.items) (hc' : completed'.Perm keys.items)
    (op : ToUploadOperation) (ds : String) :
    Agree
      (concludeUploads op ds ⟨completed.filterMap (successOf dryRun run),
        completed.filterMap (errorOf dryRun run)⟩)
      (concludeUploads op ds ⟨completed'.filterMap (successOf dryRun run),
        completed'.filterMap (errorOf dryRun run)⟩) := by
  have hperm : completed.Perm completed' := hc.trans hc'.symm
  have hsuccess := hperm.filterMap (successOf dryRun run)
  have hfailed := hperm.filterMap (errorOf dryRun run)
  unfold concludeUploads
  by_cases hnil : completed.filterMap (successOf dryRun run) = []
  · have hnil' := (hnil ▸ hsuccess).nil_eq.symm
    rw [if_pos hnil, if_pos hnil']
    exact .raised rfl
  · have hnil' : completed'.filterMap (successOf dryRun run) ≠ [] :=
      fun h => hnil (h ▸ hsuccess).eq_nil
    rw [if_neg hnil, if_neg hnil']
    simp only [buildUploadOperationFromPutResults, successfulFilesDict_get? hc,
      successfulFilesDict_get? hc']
    cases List.mapM (fun x => manifestFile ds x.1 x.2) (op.files.filterMap fun fileToUpload =>
        (ownS3File dryRun run keys fileToUpload.localPath).map (fileToUpload, ·)) with
    | error e => exact .of_error e
    | ok entries =>
        exact .returned rfl (fun _ _ _ _ _ => sortLists_perm (hsuccess.map _))
          fun _ _ _ _ _ => hfailed

lemma uploadAndConclude_agree {uploads uploads' : Uploads} {n : ℕ} (client : S3Client)
    (keys : Dict PosixPath String) (chunkSize workers : ℤ) (dryRun : Bool)
    (op : ToUploadOperation) (ds : String) (hrun : uploads.run n = uploads'.run n) :
    Agree
      ((uploadMultipleFiles client uploads n keys false chunkSize workers dryRun).result >>=
        concludeUploads op ds)
      ((uploadMultipleFiles client uploads' n keys false chunkSize workers dryRun).result >>=
        concludeUploads op ds) := by
  by_cases hw : workers ≤ 0
  · rw [uploadMultipleFiles, uploadMultipleFiles, if_pos hw, if_pos hw]
    exact .of_error _
  · have hc : (uploads.completed n keys.items).Perm keys.items := uploads.completed_perm n _
    have hc' : (uploads'.completed n keys.items).Perm keys.items := uploads'.completed_perm n _
    have hresult : (uploadMultipleFiles client uploads n keys false chunkSize workers
          dryRun).result =
        collected dryRun (uploads.run n) (putCall client n chunkSize)
          (uploads.completed n keys.items) :=
      uploadMultipleFiles_result (not_le.mp hw) rfl rfl
    have hresult' : (uploadMultipleFiles client uploads' n keys false chunkSize workers
          dryRun).result =
        collected dryRun (uploads.run n) (putCall client n chunkSize)
          (uploads'.completed n keys.items) :=
      uploadMultipleFiles_result (not_le.mp hw) hrun.symm rfl
    rw [hresult, hresult']
    rcases collected_perm (hc.trans hc'.symm) with ⟨x, x', hx, hx', hclass⟩ | ⟨hok, hok'⟩
    · rw [hx, hx']
      exact .raised hclass
    · rw [hok, hok']
      exact concludeUploads_agree hc hc' op ds

lemma isOk_of_isOk {uploads uploads' : Uploads} {n : ℕ} {client : S3Client} {did : String}
    {args : CallArgs} {anchor : Option String} {op : ToUploadOperation}
    (hrun : uploads.run n = uploads'.run n)
    (h : ∃ r, (putFilesToIngestionSystem uploads n client did args anchor op).result = .ok r) :
    ∃ r, (putFilesToIngestionSystem uploads' n client did args anchor op).result = .ok r := by
  obtain ⟨⟨res, operation⟩, hr⟩ := h
  obtain ⟨hs, hw, hset, hne, -, ho, hfiles⟩ := (putFilesToIngestionSystem_ok_iff rfl).mp hr
  rw [hrun] at hset hne hfiles
  have hperm : (uploads.completed n (ingestionKeys did args.productId args.datasetId anchor
        (op.files.map (·.localPath))).items).Perm
      (uploads'.completed n (ingestionKeys did args.productId args.datasetId anchor
        (op.files.map (·.localPath))).items) :=
    (uploads.completed_perm n _).trans (uploads'.completed_perm n _).symm
  refine ⟨(_, operation), (putFilesToIngestionSystem_ok_iff rfl).mpr
    ⟨hs, hw, hset, fun hnil => hne ?_, rfl, ho, hfiles⟩⟩
  exact (hnil ▸ hperm.filterMap (successOf args.dryRun (uploads'.run n))).eq_nil

/-- **The order in which uploads finish does not matter.** For the same outcome of every file,
any two orders of completion lead to the same class of exception or to the same operation, the
same uploaded files and, up to their order, the same failed files; with `raise_on_error`, both
runs raise or none does. -/
theorem completion_order_irrelevant (uploads uploads' : Uploads) (n : ℕ)
    (hrun : uploads.run n = uploads'.run n) (client : S3Client) (did : String) (args : CallArgs)
    (anchor : Option String) (op : ToUploadOperation) :
    let result := (putFilesToIngestionSystem uploads n client did args anchor op).result
    let result' := (putFilesToIngestionSystem uploads' n client did args anchor op).result
    (args.raiseOnUploadError = false → Agree result result') ∧
      (args.raiseOnUploadError = true →
        ((∃ e, result = .error e) ↔ ∃ e, result' = .error e)) := by
  intro result result'
  constructor
  · intro hraise
    simp only [result, result', putFilesToIngestionSystem, Comp.bind_result, Comp.lift_result,
      hraise]
    cases getLocalPathS3KeysMapping (op.files.map (·.localPath)) did args.productId
        args.datasetId anchor with
    | error e => exact .of_error e
    | ok keys => exact uploadAndConclude_agree client keys _ _ _ op _ hrun
  · intro _
    have hok : (∃ r, result = .ok r) ↔ ∃ r, result' = .ok r :=
      ⟨isOk_of_isOk hrun, isOk_of_isOk hrun.symm⟩
    have hraises : ∀ r : Except PyError (PutFilesResult × UploadOperation),
        (∃ e, r = .error e) ↔ ¬ ∃ x, r = .ok x := by
      intro r
      cases r <;> simp
    rw [hraises, hraises, hok]

def reversed (uploads : Uploads) : Uploads where
  run := uploads.run
  completed := fun n items => (uploads.completed n items).reverse
  completed_perm := fun n items =>
    (List.reverse_perm _).trans (uploads.completed_perm n items)

theorem completion_order_irrelevant_two :
    Agree
      (putFilesToIngestionSystem (exampleUploads (.success (some "e"))) 0 exampleClient "id"
        exampleArgs none ⟨[⟨1, "a.nc"⟩, ⟨2, "b.nc"⟩], none⟩).result
      (putFilesToIngestionSystem (reversed (exampleUploads (.success (some "e")))) 0
        exampleClient "id" exampleArgs none ⟨[⟨1, "a.nc"⟩, ⟨2, "b.nc"⟩], none⟩).result :=
  (completion_order_irrelevant (exampleUploads (.success (some "e")))
    (reversed (exampleUploads (.success (some "e")))) 0 rfl exampleClient "id" exampleArgs none
    ⟨[⟨1, "a.nc"⟩, ⟨2, "b.nc"⟩], none⟩).1 rfl

end MarineDelivery.Completion
