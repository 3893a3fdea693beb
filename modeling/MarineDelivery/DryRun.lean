import MarineDelivery.Calls
import MarineDelivery.Manifest

/-!
A dry run and the run it stands for.

Both go through the same validation, the same mapping and the same building of the manifest;
they differ in the puts and in the POST. When these succeed, the two runs return values that
look alike: the checksums, the times and the flag itself are all that is not compared.
-/

namespace MarineDelivery.DryRun

open MarineDelivery.PathLib MarineDelivery.PathLib.PosixPath MarineDelivery.Errors
open MarineDelivery.Common MarineDelivery.Domain MarineDelivery.Validation MarineDelivery.S3
open MarineDelivery.OrderedDict MarineDelivery.Traced MarineDelivery.Core
open MarineDelivery.Manifest MarineDelivery.Calls

/-! ### What is not compared -/

def forgetFile (u : UploadFile) : UploadFile :=
  { u with checksum := "", uploadStartTime := none, uploadEndTime := none }

def forgetOperation : Operation → Operation
  | .upload op => .upload { op with files := op.files.map forgetFile }
  | .delete op => .delete op

def forgetDelivery (d : Delivery) : Delivery :=
  { d with operations := d.operations.map forgetOperation }

def forgetUpload (r : ResponseUpload) : ResponseUpload := { r with dryRun := none }

def forgetDelete (r : ResponseDelete) : ResponseDelete := { r with dryRun := none }

def forgetResponse : OperationResponse → OperationResponse
  | .upload r => .upload (forgetUpload r)
  | .delete r => .delete (forgetDelete r)

def forgetResponses (r : ResponseDelivery) : ResponseDelivery :=
  { r with dryRun := none, operationsResponses := r.operationsResponses.map forgetResponse }

/-! ### One operation -/

variable {dryRun dryRun' : Bool} {run run' : PosixPath → FileRun}

/-- An entry of the manifest depends on the key; checksum and times are copied. -/
lemma manifestFile_congr {ds : String} {ft : FileToUpload} {s t : S3File}
    (h : s.ingestionSystemS3Path = t.ingestionSystemS3Path) :
    (manifestFile ds ft s).map forgetFile = (manifestFile ds ft t).map forgetFile := by
  unfold manifestFile UploadFile.create
  rw [h]
  cases localPathToKeySuffix t.ingestionSystemS3Path (some ds) with
  | error e => rfl
  | ok suffix =>
      rw [ok_bind, ok_bind]
      cases ensureNormalizedKeySuffix "UploadFile" suffix <;> rfl

lemma ownS3File_allPut (h : AllPut dryRun run) (h' : AllPut dryRun' run')
    (keys : Dict PosixPath String) (f : String) :
    (ownS3File dryRun run keys f = none ∧ ownS3File dryRun' run' keys f = none) ∨
    ∃ s t, ownS3File dryRun run keys f = some s ∧ ownS3File dryRun' run' keys f = some t ∧
      s.ingestionSystemS3Path = t.ingestionSystemS3Path := by
  unfold ownS3File
  split_ifs
  · cases hk : keys.get? (ofString f) with
    | none => exact Or.inl ⟨rfl, rfl⟩
    | some key =>
        obtain ⟨eTag, hv⟩ := h (ofString f)
        obtain ⟨eTag', hv'⟩ := h' (ofString f)
        exact Or.inr ⟨_, _, successOf_ok hv, successOf_ok hv', rfl⟩
  · exact Or.inl ⟨rfl, rfl⟩

lemma foundFiles_allPut (h : AllPut dryRun run) (h' : AllPut dryRun' run')
    (keys : Dict PosixPath String) (op : ToUploadOperation) :
    List.Forall₂ (fun x y : FileToUpload × S3File => x.1 = y.1 ∧
        x.2.ingestionSystemS3Path = y.2.ingestionSystemS3Path)
      (foundFiles dryRun run keys op) (foundFiles dryRun' run' keys op) := by
  unfold foundFiles
  induction op.files with
  | nil => exact .nil
  | cons ft l ih =>
      rw [List.filterMap_cons, List.filterMap_cons]
      rcases ownS3File_allPut h h' keys ft.localPath with ⟨hs, ht⟩ | ⟨s, t, hs, ht, hst⟩
      · rw [hs, ht]
        exact ih
      · rw [hs, ht]
        exact .cons ⟨rfl, hst⟩ ih

/-- What is seen of the files of an operation. -/
def view (x : PutFilesResult × UploadOperation) :
    List (PosixPath × String) × List ErrorFile × Operation :=
  (sortLists (x.1.successfulFiles.map fun file =>
      (file.localPath, getS3KeySuffix file.ingestionSystemS3Path)),
    x.1.erroredFiles, forgetOperation (.upload x.2))

/-- The entries of the manifest agree up to what the view forgets. -/
lemma manifestFiles_allPut (h : AllPut dryRun run) (h' : AllPut dryRun' run')
    (keys : Dict PosixPath String) (op : ToUploadOperation) (ds : String) :
    ((foundFiles dryRun run keys op).mapM fun x =>
        manifestFile ds x.1 x.2).map (List.map forgetFile) =
      ((foundFiles dryRun' run' keys op).mapM fun x =>
        manifestFile ds x.1 x.2).map (List.map forgetFile) := by
  refine mapM_map_congr ((foundFiles_allPut h h' keys op).imp ?_)
  rintro ⟨ft, s⟩ ⟨_, t⟩ ⟨rfl, hst⟩
  exact manifestFile_congr hst

lemma concludeUploads_allPut (h : AllPut dryRun run) (h' : AllPut dryRun' run')
    {keys : Dict PosixPath String} {completed completed' : List (PosixPath × String)}
    (hc : completed.Perm keys.items) (hc' : completed'.Perm keys.items)
    (op : ToUploadOperation) (ds : String) :
    (concludeUploads op ds ⟨completed.filterMap (successOf dryRun run), []⟩).map view =
      (concludeUploads op ds ⟨completed'.filterMap (successOf dryRun' run'), []⟩).map view := by
  have hm := map_successOf h completed
  have hm' := map_successOf h' completed'
  have hperm : ((completed.filterMap (successOf dryRun run)).map
      fun file => (file.localPath, file.ingestionSystemS3Path)).Perm
      ((completed'.filterMap (successOf dryRun' run')).map
        fun file => (file.localPath, file.ingestionSystemS3Path)) := by
    rw [hm, hm']
    exact hc.trans hc'.symm
  have hnil : completed.filterMap (successOf dryRun run) = [] ↔
      completed'.filterMap (successOf dryRun' run') = [] := by
    rw [← List.length_eq_zero_iff, ← List.length_eq_zero_iff]
    have hlen := hperm.length_eq
    simp only [List.length_map] at hlen
    rw [hlen]
  have hshown : sortLists ((completed.filterMap (successOf dryRun run)).map fun file =>
      (file.localPath, getS3KeySuffix file.ingestionSystemS3Path)) =
      sortLists ((completed'.filterMap (successOf dryRun' run')).map fun file =>
        (file.localPath, getS3KeySuffix file.ingestionSystemS3Path)) := by
    refine sortLists_perm ?_
    simpa only [List.map_map, Function.comp_def] using
      hperm.map fun x => (x.1, getS3KeySuffix x.2)
  unfold concludeUploads
  by_cases hn : completed.filterMap (successOf dryRun run) = []
  · rw [if_pos hn, if_pos (hnil.mp hn)]
  · rw [if_neg hn, if_neg (hn ∘ hnil.mpr)]
    simp only [buildUploadOperationFromPutResults, successfulFilesDict_get? hc,
      successfulFilesDict_get? hc']
    rw [bind_assoc, bind_assoc]
    refine bind_map_congr (manifestFiles_allPut h h' keys op ds) fun us us' _ _ hus => ?_
    show Except.ok (view (⟨_, _⟩, ⟨_, us⟩)) = Except.ok (view (⟨_, _⟩, ⟨_, us'⟩))
    simp only [view, forgetOperation, hus, hshown]

/-! ### The whole call -/

variable {world : World} {args : CallArgs} {dryUploads uploads : Uploads}

/-- The arguments of the dry run, and of the run it stands for. -/
def dry (args : CallArgs) : CallArgs := { args with dryRun := true }
def wet (args : CallArgs) : CallArgs := { args with dryRun := false }

lemma putFilesToIngestionSystem_view (h : ∀ n, AllPut false (uploads.run n)) (n : ℕ)
    (client : S3Client) (did : String) (anchor : Option String) (op : ToUploadOperation) :
    (putFilesToIngestionSystem dryUploads n client did (dry args) anchor op).result.map view =
      (putFilesToIngestionSystem uploads n client did (wet args) anchor op).result.map view := by
  unfold putFilesToIngestionSystem
  simp only [Comp.bind_result, Comp.lift_result]
  refine bind_map_congr (f := id) (g := id) rfl fun keys keys' _ _ hk => ?_
  obtain rfl : keys = keys' := hk
  rw [show (dry args).dryRun = true from rfl, show (wet args).dryRun = false from rfl,
    uploadMultipleFiles_allPut (allPut_dry _), uploadMultipleFiles_allPut (h n)]
  by_cases hw : args.maxConcurrentUploads ≤ 0
  · rw [if_pos (show (dry args).maxConcurrentUploads ≤ 0 from hw),
      if_pos (show (wet args).maxConcurrentUploads ≤ 0 from hw)]
    rfl
  · rw [if_neg (show ¬ (dry args).maxConcurrentUploads ≤ 0 from hw),
      if_neg (show ¬ (wet args).maxConcurrentUploads ≤ 0 from hw)]
    exact concludeUploads_allPut (allPut_dry _) (h n) (dryUploads.completed_perm n _)
      (uploads.completed_perm n _) op args.datasetId

/-- What is seen of a processed operation. -/
def viewProcessed (x : Operation × OperationResponse) : Operation × OperationResponse :=
  (forgetOperation x.1, forgetResponse x.2)

lemma processOperation_view (h : ∀ n, AllPut false (uploads.run n)) (client : S3Client)
    (pe did : String) (n : ℕ) (op : PendingOperation) :
    (processOperation dryUploads client pe did (dry args) n op).result.map viewProcessed =
      (processOperation uploads client pe did (wet args) n op).result.map viewProcessed := by
  cases op with
  | delete op => rfl
  | upload op =>
      unfold processOperation
      simp only [Comp.bind_result, Comp.pure_result]
      refine bind_map_congr (putFilesToIngestionSystem_view h n client did op.anchor op) ?_
      rintro ⟨res, operation⟩ ⟨res', operation'⟩ - - hv
      obtain ⟨hshown, hv⟩ := Prod.mk.inj hv
      obtain ⟨herr, hop⟩ := Prod.mk.inj hv
      simp only [Except.map, viewProcessed, forgetResponse, forgetUpload, ResponseUpload.create,
        hop]
      rw [hshown, herr]
      rfl

lemma runPending_view (h : ∀ n, AllPut false (uploads.run n)) (hpost : PostSucceeds world)
    (session : Session) (pending : List PendingOperation) :
    (runPending world dryUploads (dry args) session pending).result.map
        (fun x => (x.1.map forgetResponse, forgetDelivery x.2)) =
      (runPending world uploads (wet args) session pending).result.map
        (fun x => (x.1.map forgetResponse, forgetDelivery x.2)) := by
  unfold runPending
  simp only [Comp.bind_result, Comp.pure_result]
  refine bind_map_congr (Comp.eachFrom_map_congr
    (processOperation_view h session.s3Client session.pushingEntityId session.deliveryId)
    0 pending) fun l l' _ _ hl => ?_
  rw [submit_of_postSucceeds _ _ hpost, submit_of_postSucceeds _ _ hpost, ok_bind, ok_bind]
  have hops := congrArg (List.map Prod.fst) hl
  have hresp := congrArg (List.map Prod.snd) hl
  simp only [List.map_map, Function.comp_def, viewProcessed] at hops hresp
  simp only [Except.map, forgetDelivery, deliveryOf, createDelivery, List.map_map,
    Function.comp_def, hops, hresp]
  rfl

/-- A call predicts another: it does nothing that is seen outside, and it raises the same
exception or returns a value that looks alike. -/
def Predicts {α β : Type} (forget : α → β) (dryCall call : Comp Event PyError α) : Prop :=
  dryCall.events = [] ∧ dryCall.result.map forget = call.result.map forget

lemma delivery_predicts (h : ∀ n, AllPut false (uploads.run n)) (hpost : PostSucceeds world)
    (ops : List RequestedOperation) :
    Predicts (fun y => (forgetResponses y.1, forgetDelivery y.2))
      (delivery world dryUploads (dry args) ops) (delivery world uploads (wet args) ops) := by
  rw [Predicts, delivery_eq, delivery_eq]
  constructor
  · exact Comp.bind_events_eq_nil rfl fun x =>
      Comp.bind_events_eq_nil (runPending_dry_events _ _ _ rfl _ _) fun _ => rfl
  · simp only [Comp.bind_result, Comp.lift_result, Comp.pure_result]
    rw [show prepareDelivery world (dry args) ops = prepareDelivery world (wet args) ops from rfl]
    refine bind_map_congr (f := id) (g := id) rfl fun x x' _ _ hx => ?_
    obtain rfl : x = x' := hx
    refine bind_map_congr (runPending_view h hpost x.1 x.2) fun y y' _ _ hy => ?_
    obtain ⟨hr, hd⟩ := Prod.mk.inj hy
    simp only [Except.map, forgetResponses, ResponseDelivery.create, hr, hd]
    rfl

lemma upload_predicts (h : ∀ n, AllPut false (uploads.run n)) (hpost : PostSucceeds world)
    (files : List String) (anchor : Option String) :
    Predicts (fun y => (forgetUpload y.1, forgetDelivery y.2))
      (upload world dryUploads (dry args) files anchor)
      (upload world uploads (wet args) files anchor) := by
  have hdry := upload_eq world dryUploads (dry args) files anchor
  have hwet := upload_eq world uploads (wet args) files anchor
  constructor
  · rw [← Comp.bind_pure_events _ fun y : ResponseUpload × Delivery =>
      ([OperationResponse.upload y.1], y.2), hdry]
    exact Comp.bind_events_eq_nil rfl fun x => runPending_dry_events _ _ _ rfl _ _
  · have hview : (Comp.lift (prepareUpload world (dry args) files anchor) >>= fun x =>
          runPending world dryUploads (dry args) x.1 [.upload x.2]).result.map
          (fun x => (x.1.map forgetResponse, forgetDelivery x.2)) =
        (Comp.lift (prepareUpload world (wet args) files anchor) >>= fun x =>
          runPending world uploads (wet args) x.1 [.upload x.2]).result.map
          (fun x => (x.1.map forgetResponse, forgetDelivery x.2)) := by
      rw [Comp.bind_result, Comp.bind_result]
      refine bind_map_congr (f := id) (g := id) rfl fun x x' _ _ hx => ?_
      obtain rfl : x = x' := hx
      exact runPending_view h hpost x.1 [.upload x.2]
    rw [← hdry, ← hwet, Comp.bind_pure_result, Comp.bind_pure_result, map_map, map_map] at hview
    rcases map_eq_map_iff.mp hview with ⟨e, hx, hy⟩ | ⟨a, b, hx, hy, hab⟩
    · rw [hx, hy]
    · obtain ⟨hr, hd⟩ := Prod.mk.inj hab
      rw [hx, hy]
      simp only [List.map_cons, List.map_nil, forgetResponse, List.cons.injEq,
        OperationResponse.upload.injEq, and_true] at hr
      simp only [Except.map, hr, hd]

lemma delete_predicts (hpost : PostSucceeds world) (files : List String) :
    Predicts (fun y => (forgetDelete y.1, forgetDelivery y.2))
      (delete world (dry args) files) (delete world (wet args) files) := by
  rw [Predicts, delete_eq, delete_eq]
  constructor
  · exact Comp.bind_events_eq_nil rfl fun x => Comp.bind_events_eq_nil rfl fun _ => rfl
  · simp only [Comp.bind_result, Comp.lift_result, Comp.pure_result]
    rw [show prepareDelete world (dry args) files = prepareDelete world (wet args) files from rfl]
    refine bind_map_congr (f := id) (g := id) rfl fun x x' _ _ hx => ?_
    obtain rfl : x = x' := hx
    obtain ⟨config, pe, op⟩ := x
    rw [submit_of_postSucceeds _ _ hpost, submit_of_postSucceeds _ _ hpost, ok_bind, ok_bind]
    rfl

/-- **The dry run predicts the run**: when every put succeeds and so does the POST, `upload`,
`delete` and `delivery` return in a dry run what they return in the run, up to the flag, the
checksums and the times, or raise the same exception; and the dry run makes no put and no
POST. -/
theorem dry_run_predicts (world : World) (args : CallArgs) (dryUploads uploads : Uploads)
    (hputs : ∀ n, AllPut false (uploads.run n)) (hpost : PostSucceeds world) :
    (∀ files anchor, Predicts (fun y => (forgetUpload y.1, forgetDelivery y.2))
      (upload world dryUploads { args with dryRun := true } files anchor)
      (upload world uploads { args with dryRun := false } files anchor)) ∧
    (∀ files, Predicts (fun y => (forgetDelete y.1, forgetDelivery y.2))
      (delete world { args with dryRun := true } files)
      (delete world { args with dryRun := false } files)) ∧
    (∀ operations, Predicts (fun y => (forgetResponses y.1, forgetDelivery y.2))
      (delivery world dryUploads { args with dryRun := true } operations)
      (delivery world uploads { args with dryRun := false } operations)) :=
  ⟨upload_predicts hputs hpost, delete_predicts hpost, delivery_predicts hputs hpost⟩

/-- The small world, its puts successful. -/
theorem dry_run_predicts_plain :
    (∀ files anchor, Predicts (fun y => (forgetUpload y.1, forgetDelivery y.2))
      (upload (exampleWorld [("a.nc", 10)]) (exampleUploads (.exception "refused"))
        { exampleArgs with dryRun := true } files anchor)
      (upload (exampleWorld [("a.nc", 10)]) (exampleUploads (.success (some "t1")))
        { exampleArgs with dryRun := false } files anchor)) ∧
    (∀ files, Predicts (fun y => (forgetDelete y.1, forgetDelivery y.2))
      (delete (exampleWorld [("a.nc", 10)]) { exampleArgs with dryRun := true } files)
      (delete (exampleWorld [("a.nc", 10)]) { exampleArgs with dryRun := false } files)) ∧
    (∀ operations, Predicts (fun y => (forgetResponses y.1, forgetDelivery y.2))
      (delivery (exampleWorld [("a.nc", 10)]) (exampleUploads (.exception "refused"))
        { exampleArgs with dryRun := true } operations)
      (delivery (exampleWorld [("a.nc", 10)]) (exampleUploads (.success (some "t1")))
        { exampleArgs with dryRun := false } operations)) :=
  dry_run_predicts _ _ _ _ (fun _ _ => ⟨"t1", verdict_exampleUploads _ _⟩)
    ⟨fun _ => ⟨"token", rfl⟩, fun _ _ => rfl⟩

end MarineDelivery.DryRun
