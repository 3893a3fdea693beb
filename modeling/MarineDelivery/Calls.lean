import MarineDelivery.Core

/-!
The calls cut in two: what is decided before the first put, and what follows.

`upload`, `delete` and `delivery` prepare a session and a list of operations, without events
and whatever becomes of the puts; `runPending` processes the operations and POSTs the
delivery. Calls are compared by their preparations.
-/

namespace MarineDelivery.Calls

open MarineDelivery.Errors MarineDelivery.Common MarineDelivery.Domain
open MarineDelivery.Validation MarineDelivery.S3 MarineDelivery.Traced MarineDelivery.DeliveryId
open MarineDelivery.Core

/-- What a call has in hand when it begins to process its operations. -/
structure Session where
  config : GetConfigResponse
  pushingEntityId : String
  deliveryId : String
  s3Client : S3Client
  deriving DecidableEq

variable (world : World) (uploads : Uploads) (args : CallArgs)

/-- The client of the bucket of the pushing entity. -/
def openBucket (pushingEntityConfig : GetPushingEntityConfigResponse) :
    Except PyError S3Client :=
  getS3IngestionClient world pushingEntityConfig.pushingEntity.name
    pushingEntityConfig.pushingEntity.bucket pushingEntityConfig.s3EndpointUrl args.onBehalfOf
    args.chunkConcurrency

/-- The id of the delivery of a call. -/
def newDeliveryId : String := createDeliveryId world.now world.randomNumber args.productId

def prepareUpload (files : List String) (anchor : Option String) :
    Except PyError (Session × ToUploadOperation) := do
  let (config, pushingEntityConfig) ← identify world args
  let toUploadOperation ← createAndValidateToUploadOperation world.fileSystem files
    args.datasetId args.productId anchor
  validateDeliverySizes config.apiLimits [toUploadOperation]
  let s3Client ← openBucket world args pushingEntityConfig
  return (⟨config, pushingEntityConfig.pushingEntity.name, newDeliveryId world args, s3Client⟩,
    toUploadOperation)

def prepareDelivery (operations : List RequestedOperation) :
    Except PyError (Session × List PendingOperation) := do
  let (config, pushingEntityConfig) ← identify world args
  let s3Client ← openBucket world args pushingEntityConfig
  let pendingOperations ← operations.mapM (validateOperation world.fileSystem args)
  validateDeliverySizes config.apiLimits (toUploadOperations pendingOperations)
  return (⟨config, pushingEntityConfig.pushingEntity.name, newDeliveryId world args, s3Client⟩,
    pendingOperations)

def prepareDelete (files : List String) :
    Except PyError (GetConfigResponse × String × DeleteOperation) := do
  let (config, pushingEntityConfig) ← identify world args
  let deleteOperation ← createAndValidateDeleteOperation files
  return (config, pushingEntityConfig.pushingEntity.name, deleteOperation)

/-- The POST, in a call that is not a dry run. -/
def submit (config : GetConfigResponse) (delivery : Delivery) : Comp Event PyError Unit :=
  if args.dryRun then pure ()
  else do
    let token ← Comp.lift (world.fetchKeycloakTokenAtPost config)
    Comp.emit [.posted delivery]
    Comp.lift (world.post token delivery)

/-- The delivery of a session. -/
def deliveryOf (session : Session) (operations : List Operation) : Delivery :=
  createDelivery session.pushingEntityId args.productId args.datasetId operations
    session.deliveryId

/-- Processing the operations of a session and submitting what came of them. -/
def runPending (session : Session) (pendingOperations : List PendingOperation) :
    Comp Event PyError (List OperationResponse × Delivery) := do
  let processed ← Comp.eachFrom (processOperation uploads session.s3Client
    session.pushingEntityId session.deliveryId args) 0 pendingOperations
  let delivery := deliveryOf args session (processed.map Prod.fst)
  submit world args session.config delivery
  return (processed.map Prod.snd, delivery)

lemma newDeliveryId_truthy : truthy (some (newDeliveryId world args)) =
    some (newDeliveryId world args) :=
  truthy_some (createDeliveryId_ne (by decide))

lemma createAndUploadDelivery_eq (pe pid ds : String) (ops : List Operation)
    (config : GetConfigResponse) {deliveryId : Option String}
    (h : (truthy deliveryId).getD (createDeliveryId world.now world.randomNumber pid) =
      newDeliveryId world args) :
    createAndUploadDelivery world pe pid ds ops args.dryRun config deliveryId =
      submit world args config (createDelivery pe pid ds ops (newDeliveryId world args)) >>=
        fun _ => pure (createDelivery pe pid ds ops (newDeliveryId world args)) := by
  unfold createAndUploadDelivery submit
  rw [h]
  by_cases hd : args.dryRun = true
  · simp [hd]
  · simp [hd]

/-! ### The calls are their preparation and its run -/

/-- What the preparation of a delivery has checked. -/
lemma prepareDelivery_ok {operations : List RequestedOperation} {session : Session}
    {pending : List PendingOperation}
    (h : prepareDelivery world args operations = .ok (session, pending)) :
    session.deliveryId = newDeliveryId world args ∧
    List.Forall₂ (fun op p => validateOperation world.fileSystem args op = .ok p) operations
      pending := by
  unfold prepareDelivery at h
  simp only [bind_eq_ok, mapM_ok_iff, pure_eq_ok] at h
  obtain ⟨_, -, _, -, _, hv, _, -, he⟩ := h
  cases he
  exact ⟨rfl, hv⟩

/-- What the preparation of an upload has checked. -/
lemma prepareUpload_ok {files : List String} {anchor : Option String} {session : Session}
    {op : ToUploadOperation} (h : prepareUpload world args files anchor = .ok (session, op)) :
    session.deliveryId = newDeliveryId world args ∧
    createAndValidateToUploadOperation world.fileSystem files args.datasetId args.productId
      anchor = .ok op := by
  unfold prepareUpload at h
  simp only [bind_eq_ok, pure_eq_ok] at h
  obtain ⟨_, -, _, hop, _, -, _, -, he⟩ := h
  cases he
  exact ⟨rfl, hop⟩

theorem delivery_eq (operations : List RequestedOperation) :
    delivery world uploads args operations =
      Comp.lift (prepareDelivery world args operations) >>= fun x =>
        runPending world uploads args x.1 x.2 >>= fun y =>
          pure (ResponseDelivery.create x.1.deliveryId args.productId args.datasetId
            x.1.pushingEntityId args.dryRun y.1, y.2) := by
  have hsubmit : ∀ pe ops config, createAndUploadDelivery world pe args.productId args.datasetId
      ops args.dryRun config (some (newDeliveryId world args)) = _ := fun pe ops config =>
    createAndUploadDelivery_eq world args pe _ _ ops config
      (by rw [newDeliveryId_truthy, Option.getD_some])
  simp only [delivery, prepareDelivery, runPending, openBucket, Comp.lift_bind, Comp.lift_pure,
    bind_assoc, pure_bind, deliveryOf]
  simp only [show createDeliveryId world.now world.randomNumber args.productId =
    newDeliveryId world args from rfl, hsubmit, bind_assoc, pure_bind]

lemma anchor_of_created {fs : FileSystem} {files : List String} {ds pid : String}
    {anchor : Option String} {op : ToUploadOperation}
    (h : createAndValidateToUploadOperation fs files ds pid anchor = .ok op) :
    op.anchor = anchor := by
  unfold createAndValidateToUploadOperation at h
  simp only [bind_eq_ok, pure_eq_ok] at h
  obtain ⟨_, -, _, -, rfl⟩ := h
  rfl

theorem upload_eq (files : List String) (anchor : Option String) :
    (upload world uploads args files anchor >>= fun y =>
        pure ([OperationResponse.upload y.1], y.2)) =
      Comp.lift (prepareUpload world args files anchor) >>= fun x =>
        runPending world uploads args x.1 [.upload x.2] := by
  have hsubmit : ∀ pe ops config, createAndUploadDelivery world pe args.productId args.datasetId
      ops args.dryRun config (some (newDeliveryId world args)) = _ := fun pe ops config =>
    createAndUploadDelivery_eq world args pe _ _ ops config
      (by rw [newDeliveryId_truthy, Option.getD_some])
  simp only [upload, prepareUpload, runPending, openBucket, Comp.lift_bind, Comp.lift_pure,
    bind_assoc, pure_bind, deliveryOf, Comp.eachFrom, processOperation]
  simp only [show createDeliveryId world.now world.randomNumber args.productId =
    newDeliveryId world args from rfl, hsubmit, bind_assoc, pure_bind]
  refine bind_congr fun x => ?_
  cases hop : createAndValidateToUploadOperation world.fileSystem files args.datasetId
      args.productId anchor with
  | error e => simp
  | ok op => rw [Comp.lift_ok_bind, Comp.lift_ok_bind, anchor_of_created hop]; rfl

theorem delete_eq (files : List String) :
    delete world args files =
      Comp.lift (prepareDelete world args files) >>= fun (config, pe, op) =>
        let delivery := createDelivery pe args.productId args.datasetId [.delete op]
          (newDeliveryId world args)
        submit world args config delivery >>= fun _ =>
          pure (ResponseDelete.create (newDeliveryId world args) args.productId args.datasetId pe
            args.dryRun op.files, delivery) := by
  have hsubmit : ∀ pe ops config, createAndUploadDelivery world pe args.productId args.datasetId
      ops args.dryRun config none = _ := fun pe ops config =>
    createAndUploadDelivery_eq world args pe _ _ ops config rfl
  simp only [delete, prepareDelete, Comp.lift_bind, Comp.lift_pure, bind_assoc, pure_bind,
    hsubmit]
  rfl

lemma identify_config {config : GetConfigResponse} {pec : GetPushingEntityConfigResponse}
    (h : identify world args = .ok (config, pec)) : world.getConfig = .ok config := by
  unfold identify at h
  simp only [bind_eq_ok, pure_eq_ok] at h
  obtain ⟨c, hc, _, -, _, -, _, -, he⟩ := h
  rw [hc, (Prod.mk.inj he).1]

/-- Nothing is raised for the bucket when it can be listed. -/
lemma openBucket_of_reachable (h : ∀ client, world.listObjects client = none)
    (pec : GetPushingEntityConfigResponse) :
    ∃ client, openBucket world args pec = .ok client := by
  refine ⟨⟨pec.pushingEntity.bucket, pec.s3EndpointUrl, pec.pushingEntity.name,
    args.onBehalfOf, args.chunkConcurrency⟩, ?_⟩
  simp only [openBucket, getS3IngestionClient, assertBucketExists, h]
  rfl

lemma submit_dry_events (hdry : args.dryRun = true) (config : GetConfigResponse)
    (d : Delivery) : (submit world args config d).events = [] := by
  rw [submit, if_pos hdry]
  rfl

lemma putFilesToIngestionSystem_dry_events (hdry : args.dryRun = true) (n : ℕ)
    (client : S3Client) (did : String) (anchor : Option String) (op : ToUploadOperation) :
    (putFilesToIngestionSystem uploads n client did args anchor op).events = [] := by
  refine Comp.bind_events_eq_nil rfl fun keys => Comp.bind_events_eq_nil ?_ fun _ => rfl
  unfold uploadMultipleFiles
  split_ifs
  · rfl
  · refine Comp.bind_events_eq_nil ?_ fun _ => rfl
    simp [hdry, uploadFile_dryRun_exchange, putEvents]

/-- A dry run does nothing that is seen outside. -/
lemma runPending_dry_events (hdry : args.dryRun = true) (session : Session)
    (pending : List PendingOperation) :
    (runPending world uploads args session pending).events = [] := by
  refine Comp.bind_events_eq_nil (Comp.eachFrom_events_eq_nil (fun n op => ?_) 0 pending)
    fun _ => Comp.bind_events_eq_nil (submit_dry_events world args hdry _ _) fun _ => rfl
  cases op with
  | delete op => rfl
  | upload op =>
      exact Comp.bind_events_eq_nil
        (putFilesToIngestionSystem_dry_events uploads args hdry n _ _ _ _) fun _ => rfl

lemma submit_events (config : GetConfigResponse) (d : Delivery) :
    (submit world args config d).events = [] ∨
      (submit world args config d).events = [.posted d] := by
  unfold submit
  split_ifs
  · exact Or.inl rfl
  · cases world.fetchKeycloakTokenAtPost config with
    | error e => exact Or.inl rfl
    | ok token =>
        rw [Comp.lift_ok_bind, Comp.bind_events_left fun _ => rfl]
        exact Or.inr rfl

lemma eq_posted_of_mem_submit {config : GetConfigResponse} {d : Delivery} {e : Event}
    (h : e ∈ (submit world args config d).events) : e = .posted d := by
  rcases submit_events world args config d with hs | hs
  · rw [hs] at h
    cases h
  · rw [hs] at h
    exact List.mem_singleton.mp h

lemma started_notMem_submit {config : GetConfigResponse} {d : Delivery} {q : PutCall} :
    Event.started q ∉ (submit world args config d).events := by
  intro h
  cases eq_posted_of_mem_submit world args h

lemma submit_posted {config : GetConfigResponse} {d : Delivery} (hdry : args.dryRun = false)
    (h : (submit world args config d).result = .ok ()) :
    Event.posted d ∈ (submit world args config d).events := by
  unfold submit at h ⊢
  rw [hdry, if_neg Bool.false_ne_true] at h ⊢
  obtain ⟨token, ht, -⟩ := Comp.bind_result_eq_ok.mp h
  exact Comp.mem_bind_right ht (Comp.mem_bind_left (by simp))

/-- What a run of the operations that returns has done. -/
lemma runPending_ok {session : Session} {pending : List PendingOperation}
    {responses : List OperationResponse} {d : Delivery}
    (h : (runPending world uploads args session pending).result = .ok (responses, d)) :
    ∃ processed, (Comp.eachFrom (processOperation uploads session.s3Client
          session.pushingEntityId session.deliveryId args) 0 pending).result = .ok processed ∧
      responses = processed.map Prod.snd ∧
      d = deliveryOf args session (processed.map Prod.fst) ∧
      (submit world args session.config d).result = .ok () := by
  unfold runPending at h
  obtain ⟨processed, hp, h⟩ := Comp.bind_result_eq_ok.mp h
  obtain ⟨⟨⟩, hs, h⟩ := Comp.bind_result_eq_ok.mp h
  cases h
  exact ⟨processed, hp, rfl, rfl, hs⟩

lemma runPending_events_of_body {session : Session} {pending : List PendingOperation} {i : ℕ}
    {p : PendingOperation} {e : Event} {processed : List (Operation × OperationResponse)}
    (h : (Comp.eachFrom (processOperation uploads session.s3Client session.pushingEntityId
      session.deliveryId args) 0 pending).result = .ok processed)
    (hp : pending[i]? = some p)
    (he : e ∈ (processOperation uploads session.s3Client session.pushingEntityId
      session.deliveryId args i p).events) :
    e ∈ (runPending world uploads args session pending).events :=
  Comp.mem_bind_left (Comp.mem_eachFrom_of_body h hp (by rwa [Nat.zero_add]))

/-- The POST of the run succeeds, the second fetch of the token included. -/
def PostSucceeds (world : World) : Prop :=
  (∀ config, ∃ token, world.fetchKeycloakTokenAtPost config = .ok token) ∧
  ∀ token delivery, world.post token delivery = .ok ()

lemma submit_of_postSucceeds (h : PostSucceeds world) (config : GetConfigResponse)
    (d : Delivery) :
    (submit world args config d).result = .ok () := by
  obtain ⟨token, ht⟩ := h.1 config
  unfold submit
  split_ifs
  · rfl
  · simp [ht, h.2]
    rfl

end MarineDelivery.Calls
