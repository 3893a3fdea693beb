import MarineDelivery.Calls
import MarineDelivery.Manifest

/-!
When a call that raises has already made puts.

With puts and a POST that succeed, what a call does is decided by its input. An input that is
not rejected before the first put is rejected after it exactly when an upload operation behind
the first has no files, or a file goes into the manifest under a key suffix the validator
does not let through.
-/

namespace MarineDelivery.Effects

open MarineDelivery.PathLib MarineDelivery.PathLib.PosixPath MarineDelivery.Errors
open MarineDelivery.Common MarineDelivery.Domain MarineDelivery.Validation MarineDelivery.S3
open MarineDelivery.OrderedDict MarineDelivery.Traced MarineDelivery.Processes
open MarineDelivery.Core MarineDelivery.Manifest MarineDelivery.Calls

def NoPut (events : List Event) : Prop := ∀ q, Event.started q ∉ events

/-- The call raises and has made no put, or it returns and has POSTed its delivery. -/
def CleanCall {ρ : Type} (call : Comp Event PyError (ρ × Delivery)) : Prop :=
  (∃ e, call.result = .error e ∧ NoPut call.events) ∨
  ∃ r d, call.result = .ok (r, d) ∧ Event.posted d ∈ call.events

/-- Every file of the operation that gets an entry has a key the validator lets through. -/
def Publishable (did pid ds : String) (u : Upload) : Prop :=
  ∀ f ∈ u.files, (ofString f).str = f → ∀ key,
    (ingestionKeys did pid ds u.anchor u.files).get? (ofString f) = some key →
    acceptableKeySuffix key (some ds) = true

/-- The first upload operation has no files. -/
def firstUploadEmpty : List RequestedOperation → Prop
  | [] => False
  | .delete _ :: rest => firstUploadEmpty rest
  | .upload u :: _ => u.files = []

/-- Every upload operation has files, and their keys are let through. -/
def AllPublishable (did pid ds : String) (ops : List RequestedOperation) : Prop :=
  ∀ u, RequestedOperation.upload u ∈ ops → u.files ≠ [] ∧ Publishable did pid ds u

/-! ### One upload operation -/

variable {world : World} {args : CallArgs} {uploads : Uploads} {client : S3Client}
variable {pe did : String} {n : ℕ} {u : Upload} {fs : FileSystem}

lemma items_ingestionKeys_eq_nil {pid ds : String} {anchor : Option String}
    {files : List String} :
    (ingestionKeys did pid ds anchor files).items = [] ↔ files = [] := by
  constructor
  · intro h
    refine List.eq_nil_iff_forall_not_mem.mpr fun f hf => ?_
    have hk : ofString f ∈ (ingestionKeys did pid ds anchor files).keys :=
      mem_keys_ingestionKeys.mpr (List.mem_map_of_mem hf)
    rw [Dict.keys, h] at hk
    cases hk
  · rintro rfl
    rfl

lemma filterMap_successOf_eq_nil {run : PosixPath → FileRun} {l : List (PosixPath × String)}
    (h : AllPut false run) : l.filterMap (successOf false run) = [] ↔ l = [] := by
  constructor
  · intro hn
    rw [← map_successOf h l, hn, List.map_nil]
  · rintro rfl
    rfl

lemma exists_entries_of_publishable (uploads : Uploads) (n : ℕ) {op : ToUploadOperation}
    (hmap : op.files.map (·.localPath) = u.files)
    (hpub : Publishable did args.productId args.datasetId u) :
    ∃ us, List.Forall₂ (fun x entry => manifestFile args.datasetId x.1 x.2 = .ok entry)
      (foundFiles false (uploads.run n)
        (ingestionKeys did args.productId args.datasetId u.anchor u.files) op) us := by
  refine exists_forall₂ fun x hx => ?_
  obtain ⟨ft, hft, hown⟩ := List.mem_filterMap.mp hx
  obtain ⟨put, hput, rfl⟩ := Option.map_eq_some_iff.mp hown
  obtain ⟨hs, key, hitem, hsome⟩ := ownS3File_eq_some hput
  obtain ⟨_, -, rfl⟩ := successOf_eq_some hsome
  exact manifestFile_isOk_iff.mpr (hpub ft.localPath
    (hmap ▸ List.mem_map_of_mem hft) hs key (Dict.mem_items_iff.mp hitem))

/-- An operation that was accepted returns exactly when it has files and their keys are let
through. -/
lemma putFilesToIngestionSystem_isOk_iff {op : ToUploadOperation} (hdry : args.dryRun = false)
    (hw : 0 < args.maxConcurrentUploads) (hputs : AllPut false (uploads.run n))
    (hop : createAndValidateToUploadOperation fs u.files args.datasetId args.productId u.anchor =
      .ok op) :
    (∃ x, (putFilesToIngestionSystem uploads n client did args u.anchor op).result = .ok x) ↔
      u.files ≠ [] ∧ Publishable did args.productId args.datasetId u := by
  obtain ⟨hvalid, -, -, hfiles⟩ := createAndValidateToUploadOperation_ok_iff.mp hop
  have hmap : op.files.map (·.localPath) = u.files := by
    rw [hfiles, map_localPath_fileToUpload]
  have hnil : (uploads.completed n (ingestionKeys did args.productId args.datasetId u.anchor
      u.files).items).filterMap (successOf false (uploads.run n)) = [] ↔ u.files = [] := by
    have hperm := uploads.completed_perm n
      (ingestionKeys did args.productId args.datasetId u.anchor u.files).items
    rw [filterMap_successOf_eq_nil hputs, ← List.length_eq_zero_iff, hperm.length_eq,
      List.length_eq_zero_iff, items_ingestionKeys_eq_nil]
  constructor
  · rintro ⟨⟨res, operation⟩, h⟩
    obtain ⟨-, -, -, hsucc, -, -, hus⟩ := (putFilesToIngestionSystem_ok_iff hmap).mp h
    rw [hdry] at hsucc hus
    refine ⟨fun hn => hsucc (hnil.mpr hn), fun f hf hs key hkey => ?_⟩
    obtain ⟨eTag, hv⟩ := hputs (ofString f)
    rw [hfiles] at hus
    obtain ⟨entry, -, hentry⟩ := forall₂_left hus (mem_foundFiles fs hf hs hkey hv)
    have hk := manifestFile_isOk_iff.mp ⟨entry, hentry⟩
    exact hk
  · rintro ⟨hne, hpub⟩
    obtain ⟨us, hus⟩ := exists_entries_of_publishable uploads n hmap hpub
    refine ⟨(_, ⟨.upload, us⟩), (putFilesToIngestionSystem_ok_iff hmap).mpr
      ⟨fun f hf => localPathToKeySuffix_of_valid (hvalid f hf), hw, fun item _ => ?_, ?_, rfl,
        rfl, ?_⟩⟩
    · obtain ⟨eTag, hv⟩ := hputs item.1
      rw [hdry, hv]
      trivial
    · rw [hdry]
      exact fun hn => hne (hnil.mp hn)
    · rwa [hdry]

lemma putFilesToIngestionSystem_noPut_iff {op : ToUploadOperation} (hdry : args.dryRun = false)
    (hw : 0 < args.maxConcurrentUploads)
    (hop : createAndValidateToUploadOperation fs u.files args.datasetId args.productId u.anchor =
      .ok op) :
    NoPut (putFilesToIngestionSystem uploads n client did args u.anchor op).events ↔
      u.files = [] := by
  obtain ⟨hvalid, -, -, hfiles⟩ := createAndValidateToUploadOperation_ok_iff.mp hop
  have hmap : op.files.map (·.localPath) = u.files := by
    rw [hfiles, map_localPath_fileToUpload]
  have hsuffix := fun f hf => localPathToKeySuffix_of_valid (hvalid f hf)
  constructor
  · intro h
    refine List.eq_nil_iff_forall_not_mem.mpr fun f hf => ?_
    obtain ⟨key, hkey⟩ := Dict.mem_keys_iff.mp (mem_keys_ingestionKeys.mpr
      (List.mem_map_of_mem hf))
    have hfirst := first_mem_exchange (putCall client n args.chunkSizeBytes (ofString f, key))
      (uploads.run n (ofString f)).toUploadTimes key (ofString f) args.raiseOnUploadError
      (uploads.run n (ofString f)).attempts
    exact h _ (mem_putFilesToIngestionSystem_events hmap hsuffix hw
      (Dict.mem_items_iff.mpr hkey) (started_mem_putEvents.mpr ⟨_, by rw [hdry]; exact hfirst⟩))
  · intro hn
    have hkeys : getLocalPathS3KeysMapping (op.files.map (·.localPath)) did args.productId
        args.datasetId u.anchor =
        .ok (ingestionKeys did args.productId args.datasetId u.anchor u.files) :=
      getLocalPathS3KeysMapping_ok_iff.mpr (by rw [hmap]; exact ⟨hsuffix, rfl⟩)
    have hnil : (putFilesToIngestionSystem uploads n client did args u.anchor op).events = [] := by
      unfold putFilesToIngestionSystem
      rw [hkeys, Comp.lift_ok_bind]
      exact Comp.bind_events_eq_nil (uploadMultipleFiles_events_nil
        (items_ingestionKeys_eq_nil.mpr hn)) fun _ => rfl
    rw [NoPut, hnil]
    exact fun q hq => by cases hq

/-! ### One turn of the loop, and the whole loop -/

section

variable {pid ds : String} {ops : List RequestedOperation}

@[simp] lemma allPublishable_nil : AllPublishable did pid ds [] := fun _ hu => by cases hu

@[simp] lemma allPublishable_delete_cons {d : Delete} :
    AllPublishable did pid ds (.delete d :: ops) ↔ AllPublishable did pid ds ops := by
  simp [AllPublishable]

@[simp] lemma allPublishable_upload_cons :
    AllPublishable did pid ds (.upload u :: ops) ↔
      (u.files ≠ [] ∧ Publishable did pid ds u) ∧ AllPublishable did pid ds ops := by
  simp [AllPublishable]

end

lemma processOperation_upload {requested : Upload} {op : ToUploadOperation}
    (hop : createAndValidateToUploadOperation fs requested.files args.datasetId args.productId
      requested.anchor = .ok op) :
    processOperation uploads client pe did args n (.upload op) =
      putFilesToIngestionSystem uploads n client did args requested.anchor op >>= fun x =>
        pure (.upload x.2, .upload (ResponseUpload.create did args.productId args.datasetId pe
          args.dryRun x.1)) := by
  rw [← anchor_of_created hop]
  rfl

variable (uploads client pe did n)

lemma processOperation_isOk_iff {op : RequestedOperation} {p : PendingOperation}
    (hdry : args.dryRun = false) (hw : 0 < args.maxConcurrentUploads)
    (hputs : AllPut false (uploads.run n)) (hv : validateOperation fs args op = .ok p) :
    (∃ x, (processOperation uploads client pe did args n p).result = .ok x) ↔
      AllPublishable did args.productId args.datasetId [op] := by
  cases op with
  | delete requested =>
      obtain ⟨operation, -, he⟩ := bind_eq_ok.mp hv
      cases he
      exact ⟨fun _ => by simp, fun _ => ⟨_, rfl⟩⟩
  | upload requested =>
      obtain ⟨operation, hop, he⟩ := bind_eq_ok.mp hv
      cases he
      rw [processOperation_upload hop]
      simp only [allPublishable_upload_cons, allPublishable_nil, and_true]
      rw [← putFilesToIngestionSystem_isOk_iff (n := n) hdry hw hputs hop]
      simp only [Comp.bind_result_eq_ok]
      exact ⟨fun ⟨_, x, hx, _⟩ => ⟨x, hx⟩, fun ⟨x, hx⟩ => ⟨_, x, hx, rfl⟩⟩

lemma processOperation_noPut_iff {op : RequestedOperation} {p : PendingOperation}
    (hdry : args.dryRun = false) (hw : 0 < args.maxConcurrentUploads)
    (hv : validateOperation fs args op = .ok p) :
    NoPut (processOperation uploads client pe did args n p).events ↔
      ∀ u, op = .upload u → u.files = [] := by
  cases op with
  | delete requested =>
      obtain ⟨operation, -, he⟩ := bind_eq_ok.mp hv
      cases he
      exact iff_of_true (fun q hq => by cases hq) fun u hu => by cases hu
  | upload requested =>
      obtain ⟨operation, hop, he⟩ := bind_eq_ok.mp hv
      cases he
      rw [processOperation_upload hop, Comp.bind_pure_events,
        putFilesToIngestionSystem_noPut_iff hdry hw hop]
      simp

section

variable {ops : List RequestedOperation} {pending : List PendingOperation}

lemma loop_isOk_iff (hdry : args.dryRun = false) (hw : 0 < args.maxConcurrentUploads)
    (hputs : ∀ n, AllPut false (uploads.run n))
    (hv : List.Forall₂ (fun op p => validateOperation fs args op = .ok p) ops pending) :
    (∃ l, (Comp.eachFrom (processOperation uploads client pe did args) n pending).result =
        .ok l) ↔
      AllPublishable did args.productId args.datasetId ops := by
  induction hv generalizing n with
  | nil => simp
  | @cons op p ops pending hop _ ih =>
      have hhead := processOperation_isOk_iff uploads client pe did n hdry hw (hputs n) hop
      have hsplit : AllPublishable did args.productId args.datasetId (op :: ops) ↔
          AllPublishable did args.productId args.datasetId [op] ∧
            AllPublishable did args.productId args.datasetId ops := by
        cases op <;> simp
      rw [hsplit, ← hhead, ← ih (n + 1)]
      constructor
      · rintro ⟨_, h⟩
        obtain ⟨b, cs, -, hb, hcs⟩ := Comp.eachFrom_cons_ok.mp h
        exact ⟨⟨b, hb⟩, cs, hcs⟩
      · rintro ⟨⟨b, hb⟩, cs, hcs⟩
        exact ⟨b :: cs, Comp.eachFrom_cons_ok.mpr ⟨b, cs, rfl, hb, hcs⟩⟩

/-- The loop fails without a put exactly when it fails on a first upload operation that has no
files. -/
lemma loop_rejects_iff (hdry : args.dryRun = false) (hw : 0 < args.maxConcurrentUploads)
    (hputs : ∀ n, AllPut false (uploads.run n))
    (hv : List.Forall₂ (fun op p => validateOperation fs args op = .ok p) ops pending) :
    (∃ e, (Comp.eachFrom (processOperation uploads client pe did args) n pending).result =
          .error e ∧
        NoPut (Comp.eachFrom (processOperation uploads client pe did args) n pending).events) ↔
      firstUploadEmpty ops := by
  induction hv generalizing n with
  | nil => simp [firstUploadEmpty]
  | @cons op p ops pending hop _ ih =>
      have hhead := processOperation_isOk_iff uploads client pe did n hdry hw (hputs n) hop
      have hput := processOperation_noPut_iff uploads client pe did n hdry hw hop
      cases op with
      | delete requested =>
          obtain ⟨operation, -, he⟩ := bind_eq_ok.mp hop
          cases he
          rw [firstUploadEmpty, ← ih (n + 1), Comp.eachFrom, processOperation, pure_bind,
            Comp.bind_pure_events, Comp.bind_pure_result]
          cases (Comp.eachFrom (processOperation uploads client pe did args) (n + 1)
            pending).result <;> simp [Except.map]
      | upload u =>
          rw [firstUploadEmpty]
          constructor
          · rintro ⟨_, -, hno⟩
            exact hput.mp (fun q hq => hno q (Comp.mem_bind_left hq)) u rfl
          · intro hempty
            cases hres : (processOperation uploads client pe did args n p).result with
            | ok x =>
                have hall := hhead.mp ⟨x, hres⟩
                simp [hempty] at hall
            | error e =>
                rw [Comp.eachFrom, Comp.bind_error hres]
                refine ⟨e, rfl, hput.mpr fun u' hu => ?_⟩
                cases hu
                exact hempty

end

/-! ### Calls -/

lemma cleanCall_lift_bind {α ρ : Type} {x : Except PyError α}
    {k : α → Comp Event PyError (ρ × Delivery)} :
    CleanCall (Comp.lift x >>= k) ↔ (∃ e, x = .error e) ∨ ∃ a, x = .ok a ∧ CleanCall (k a) := by
  cases x with
  | error e => simp [CleanCall, NoPut]
  | ok a => simp

lemma cleanCall_map {ρ σ : Type} {f : ρ → σ} {call : Comp Event PyError (ρ × Delivery)} :
    CleanCall (call >>= fun y => pure (f y.1, y.2)) ↔ CleanCall call := by
  rw [CleanCall, CleanCall, Comp.bind_pure_events, Comp.bind_pure_result]
  cases call.result with
  | error e => simp [Except.map]
  | ok x =>
      obtain ⟨r, d⟩ := x
      simp [Except.map]

/-- What a run of accepted operations does, when puts and POST succeed. -/
lemma cleanCall_runPending_iff {world : World} (session : Session)
    {ops : List RequestedOperation} {pending : List PendingOperation}
    (hdry : args.dryRun = false) (hw : 0 < args.maxConcurrentUploads)
    (hputs : ∀ n, AllPut false (uploads.run n)) (hpost : PostSucceeds world)
    (hv : List.Forall₂ (fun op p => validateOperation fs args op = .ok p) ops pending) :
    CleanCall (runPending world uploads args session pending) ↔
      firstUploadEmpty ops ∨
        AllPublishable session.deliveryId args.productId args.datasetId ops := by
  rw [← loop_rejects_iff uploads session.s3Client session.pushingEntityId session.deliveryId 0
    hdry hw hputs hv, ← loop_isOk_iff uploads session.s3Client session.pushingEntityId
    session.deliveryId 0 hdry hw hputs hv]
  cases hloop : (Comp.eachFrom (processOperation uploads session.s3Client
      session.pushingEntityId session.deliveryId args) 0 pending).result with
  | error e =>
      rw [CleanCall, runPending, Comp.bind_error hloop]
      simp
  | ok processed =>
      have hs := submit_of_postSucceeds world args hpost session.config
        (deliveryOf args session (processed.map Prod.fst))
      have hret : (runPending world uploads args session pending).result =
          .ok (processed.map Prod.snd, deliveryOf args session (processed.map Prod.fst)) := by
        rw [runPending, Comp.bind_ok hloop, Comp.bind_ok hs]
        rfl
      refine iff_of_true (Or.inr ⟨_, _, hret, ?_⟩) (Or.inr ⟨processed, rfl⟩)
      exact Comp.mem_bind_right hloop (Comp.mem_bind_left (submit_posted world args hdry hs))

variable {uploads}

/-- **When a call rejects its input before its first put, or carries it through.** -/
theorem cleanCall_iff {world : World} (hdry : args.dryRun = false)
    (hw : 0 < args.maxConcurrentUploads) (hputs : ∀ n, AllPut false (uploads.run n))
    (hpost : PostSucceeds world) :
    (∀ ops, CleanCall (delivery world uploads args ops) ↔
      (∃ e, prepareDelivery world args ops = .error e) ∨ firstUploadEmpty ops ∨
        AllPublishable (newDeliveryId world args) args.productId args.datasetId ops) ∧
    ∀ files anchor, CleanCall (upload world uploads args files anchor) ↔
      (∃ e, prepareUpload world args files anchor = .error e) ∨ files = [] ∨
        Publishable (newDeliveryId world args) args.productId args.datasetId
          ⟨files, anchor⟩ := by
  constructor
  · intro ops
    rw [delivery_eq, cleanCall_lift_bind]
    cases hprep : prepareDelivery world args ops with
    | error e => simp
    | ok x =>
        obtain ⟨session, pending⟩ := x
        obtain ⟨hid, hv⟩ := prepareDelivery_ok world args hprep
        rw [← hid, ← cleanCall_runPending_iff uploads session hdry hw hputs hpost hv]
        simp only [reduceCtorEq, exists_false, false_or, Except.ok.injEq, exists_eq_left']
        exact cleanCall_map
  · intro files anchor
    rw [← cleanCall_map (f := fun r => [OperationResponse.upload r]), upload_eq,
      cleanCall_lift_bind]
    cases hprep : prepareUpload world args files anchor with
    | error e => simp
    | ok x =>
        obtain ⟨session, op⟩ := x
        obtain ⟨hid, hop⟩ := prepareUpload_ok world args hprep
        have hv : List.Forall₂
            (fun op p => validateOperation world.fileSystem args op = .ok p)
            [.upload ⟨files, anchor⟩] [.upload op] := by
          simp [validateOperation, hop]
        have hrun := cleanCall_runPending_iff uploads session hdry hw hputs hpost hv
        rw [hid] at hrun
        simp only [reduceCtorEq, exists_false, false_or, Except.ok.injEq, exists_eq_left', hrun,
          firstUploadEmpty, allPublishable_upload_cons, allPublishable_nil, and_true]
        tauto

theorem cleanCall_iff_plain :
    (∀ ops, CleanCall (delivery (exampleWorld [("a.nc", 10)])
        (exampleUploads (.success (some "t1"))) exampleArgs ops) ↔
      (∃ e, prepareDelivery (exampleWorld [("a.nc", 10)]) exampleArgs ops = .error e) ∨
        firstUploadEmpty ops ∨ AllPublishable (newDeliveryId (exampleWorld [("a.nc", 10)])
          exampleArgs) exampleArgs.productId exampleArgs.datasetId ops) ∧
    ∀ files anchor, CleanCall (upload (exampleWorld [("a.nc", 10)])
        (exampleUploads (.success (some "t1"))) exampleArgs files anchor) ↔
      (∃ e, prepareUpload (exampleWorld [("a.nc", 10)]) exampleArgs files anchor = .error e) ∨
        files = [] ∨ Publishable (newDeliveryId (exampleWorld [("a.nc", 10)]) exampleArgs)
          exampleArgs.productId exampleArgs.datasetId ⟨files, anchor⟩ :=
  cleanCall_iff rfl (by decide) (fun _ _ => ⟨"t1", verdict_exampleUploads _ _⟩)
    ⟨fun _ => ⟨"token", rfl⟩, fun _ _ => rfl⟩

/-- An upload operation without files, behind one that has files: the file of the first is put
before the second is found to have nothing to deliver. -/
theorem not_cleanCall_empty_second :
    exampleArgs.dryRun = false ∧ 0 < exampleArgs.maxConcurrentUploads ∧
    (∀ n, AllPut false ((exampleUploads (.success (some "t1"))).run n)) ∧
    PostSucceeds (exampleWorld [("a.nc", 10)]) ∧
    ¬ CleanCall (delivery (exampleWorld [("a.nc", 10)])
      (exampleUploads (.success (some "t1"))) exampleArgs
      [.upload ⟨["a.nc"], none⟩, .upload ⟨[], none⟩]) := by
  refine ⟨rfl, by decide, fun _ _ => ⟨"t1", verdict_exampleUploads _ _⟩,
    ⟨fun _ => ⟨"token", rfl⟩, fun _ _ => rfl⟩, ?_⟩
  rintro (⟨e, -, hno⟩ | ⟨r, d, hret, -⟩)
  · exact hno (putCall exampleClient 0 16777216 (ofString "a.nc",
      "data/" ++ newDeliveryId (exampleWorld []) exampleArgs ++ "/prod/dset/a.nc") 1)
      (by decide +kernel)
  · have herr : (delivery (exampleWorld [("a.nc", 10)])
        (exampleUploads (.success (some "t1"))) exampleArgs
        [.upload ⟨["a.nc"], none⟩, .upload ⟨[], none⟩]).result.toBool = false := by
      decide +kernel
    rw [hret] at herr
    cases herr

end MarineDelivery.Effects
