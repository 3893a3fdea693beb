import MarineDelivery.Calls
import MarineDelivery.Manifest

/-!
The operations of a delivery, from the request to the POST.

Two loops go over the operations, the second one with concurrent uploads inside. The step
lemma follows one operation through both; the loop rules put the operations in their places.
-/

namespace MarineDelivery.Order

open MarineDelivery.PathLib MarineDelivery.PathLib.PosixPath MarineDelivery.Errors
open MarineDelivery.Common MarineDelivery.Domain MarineDelivery.Validation MarineDelivery.S3
open MarineDelivery.OrderedDict MarineDelivery.Traced MarineDelivery.Core
open MarineDelivery.Manifest MarineDelivery.Calls

/-- An entry of operation `i` has the `e_tag` and the key suffix of a put of its own file, made
for operation `i` to the key the anchor of that operation gives. -/
def FromPut (events : List Event) (i : ℕ) (did pid ds : String) (requested : Upload)
    (file : String) (entry : UploadFile) : Prop :=
  ∃ call eTag, Event.ended call (.success (some eTag)) ∈ events ∧ call.operation = i ∧
    call.file = ofString file ∧ entry.checksum = stripQuotes eTag ∧
    localPathToKeySuffix call.key (some ds) = .ok entry.keySuffix.1 ∧
    ∃ g ∈ requested.files, ofString g = ofString file ∧
      ∃ s, localPathToKeySuffix g requested.anchor = .ok s ∧
        call.key = newDataBucketPath did pid ds s

/-- What operation `i` of a request becomes, in the manifest and in the response. -/
def Corresponds (events : List Event) (i : ℕ) (did pid ds : String) :
    RequestedOperation → Operation → OperationResponse → Prop
  | .delete requested, .delete posted, .delete response =>
    posted.operation = .delete ∧
    posted.files.map (·.keySuffix.1) = requested.files ∧
    response.filesToDelete.map (·.keySuffix.1) = requested.files
  | .upload requested, .upload posted, .upload _ =>
    posted.operation = .upload ∧
    ∃ listed : List String, listed.Sublist requested.files ∧
      List.Forall₂ (FromPut events i did pid ds requested) listed posted.files
  | _, _, _ => False

lemma FromPut.mono {events events' : List Event} {i : ℕ} {did pid ds : String} {u : Upload}
    {file : String} {entry : UploadFile} (h : FromPut events i did pid ds u file entry)
    (hsub : events ⊆ events') : FromPut events' i did pid ds u file entry := by
  obtain ⟨call, eTag, he, h⟩ := h
  exact ⟨call, eTag, hsub he, h⟩

lemma Corresponds.mono {events events' : List Event} {i : ℕ} {did pid ds : String}
    {op : RequestedOperation} {o : Operation} {r : OperationResponse}
    (h : Corresponds events i did pid ds op o r) (hsub : events ⊆ events') :
    Corresponds events' i did pid ds op o r := by
  cases op <;> cases o <;> cases r <;> try exact h
  obtain ⟨ho, listed, hl, hf⟩ := h
  exact ⟨ho, listed, hl, hf.imp fun _ _ h => h.mono hsub⟩

/-! ### One operation -/

lemma createAndValidateDeleteOperation_ok {files : List String} {op : DeleteOperation}
    (h : createAndValidateDeleteOperation files = .ok op) :
    op.operation = .delete ∧ op.files.map (·.keySuffix.1) = files := by
  unfold createAndValidateDeleteOperation DeleteFile.create at h
  simp only [bind_eq_ok, mapM_ok_iff, ensureNormalizedKeySuffix_ok_iff, pure_eq_ok] at h
  obtain ⟨_, -, ds, hds, rfl⟩ := h
  refine ⟨rfl, ?_⟩
  show ds.map (·.keySuffix.1) = files
  induction hds with
  | nil => rfl
  | cons hd _ ih =>
      obtain ⟨k, rfl, rfl⟩ := hd
      rw [List.map_cons, ih]

variable {uploads : Uploads} {args : CallArgs} {client : S3Client} {did pe : String} {i : ℕ}

lemma putFilesToIngestionSystem_fromPut {fs : FileSystem} {requested : Upload}
    {op : ToUploadOperation} {res : PutFilesResult} {operation : UploadOperation}
    (hdry : args.dryRun = false) (hfiles : op = ⟨requested.files.map (fileToUpload fs),
      requested.anchor⟩)
    (h : (putFilesToIngestionSystem uploads i client did args requested.anchor op).result =
      .ok (res, operation)) :
    operation.operation = .upload ∧
    ∃ listed : List String, listed.Sublist requested.files ∧
      List.Forall₂ (FromPut
          (putFilesToIngestionSystem uploads i client did args requested.anchor op).events i did
          args.productId args.datasetId requested) listed operation.files := by
  have hmap : op.files.map (·.localPath) = requested.files := by
    rw [hfiles, map_localPath_fileToUpload]
  obtain ⟨hsuffix, hw, -, -, -, ho, hus⟩ := (putFilesToIngestionSystem_ok_iff hmap).mp h
  have hentries := entries_of_found fs (hfiles ▸ hus)
  refine ⟨ho, _, List.filter_sublist, hentries.imp ?_⟩
  rintro f entry ⟨put, hown, hu⟩
  obtain ⟨-, key, hitem, hs⟩ := ownS3File_eq_some hown
  obtain ⟨checksum, hv, rfl⟩ := successOf_eq_some hs
  rw [hdry] at hv
  obtain ⟨eTag, m, rfl, hm, -⟩ := exists_put_of_verdict client i args.chunkSizeBytes
    (ofString f, key) args.raiseOnUploadError hv
  obtain ⟨g, hg, he⟩ := mem_ingestionKeys hitem
  obtain ⟨hp, hkey⟩ := Prod.mk.inj he
  obtain ⟨s, hs⟩ := hsuffix g hg
  obtain ⟨hkeySuffix, hentry⟩ := manifestFile_ok_iff.mp hu
  refine ⟨putCall client i args.chunkSizeBytes (ofString f, key) m, eTag, ?_, rfl, rfl,
    congrArg UploadFile.checksum hentry, hkeySuffix, g, hg, hp.symm, s, hs, ?_⟩
  · exact mem_putFilesToIngestionSystem_events hmap hsuffix hw hitem
      (ended_mem_putEvents.mpr (by rwa [hdry]))
  · rw [← keySuffixOf_of_ok hs]
    exact hkey

/-- **One operation through both loops.** -/
lemma processOperation_corresponds {fs : FileSystem} {op : RequestedOperation}
    {p : PendingOperation} {o : Operation} {r : OperationResponse} (hdry : args.dryRun = false)
    (hv : validateOperation fs args op = .ok p)
    (h : (processOperation uploads client pe did args i p).result = .ok (o, r)) :
    Corresponds (processOperation uploads client pe did args i p).events i did args.productId
      args.datasetId op o r := by
  cases op with
  | delete requested =>
      obtain ⟨operation, hop, he⟩ := bind_eq_ok.mp hv
      cases he
      cases h
      obtain ⟨ho, hfiles⟩ := createAndValidateDeleteOperation_ok hop
      exact ⟨ho, hfiles, hfiles⟩
  | upload requested =>
      obtain ⟨operation, hop, he⟩ := bind_eq_ok.mp hv
      cases he
      have hanchor := anchor_of_created hop
      obtain ⟨-, -, -, hfiles⟩ := createAndValidateToUploadOperation_ok_iff.mp hop
      obtain ⟨⟨res, posted⟩, hput, he⟩ := Comp.bind_result_eq_ok.mp h
      cases he
      rw [hanchor] at hput
      obtain ⟨ho, listed, hl, hf⟩ := putFilesToIngestionSystem_fromPut hdry hfiles hput
      refine ⟨ho, listed, hl, hf.imp fun f entry hentry => hentry.mono fun e he => ?_⟩
      refine Comp.mem_bind_left ?_
      rwa [hanchor]

variable {world : World}

/-- **Order and kind are preserved**: when `delivery` returns, the posted operations and the
responses are as many as the requested operations, and at every place stand those of the
operation requested there. -/
theorem order_preserved {ops : List RequestedOperation} {resp : ResponseDelivery}
    {d : Delivery} (hdry : args.dryRun = false)
    (h : (delivery world uploads args ops).result = .ok (resp, d)) :
    Event.posted d ∈ (delivery world uploads args ops).events ∧
    d.operations.length = ops.length ∧ resp.operationsResponses.length = ops.length ∧
    ∀ i op, ops[i]? = some op → ∃ o r, d.operations[i]? = some o ∧
      resp.operationsResponses[i]? = some r ∧
      Corresponds (delivery world uploads args ops).events i d.deliveryId args.productId
        args.datasetId op o r := by
  rw [delivery_eq] at h ⊢
  obtain ⟨⟨session, pending⟩, hprep, h⟩ := Comp.bind_result_eq_ok.mp h
  obtain ⟨⟨responses, d'⟩, hrun, h⟩ := Comp.bind_result_eq_ok.mp h
  cases h
  obtain ⟨processed, hloop, rfl, rfl, hsubmit⟩ := runPending_ok _ _ _ hrun
  obtain ⟨-, hpending⟩ := prepareDelivery_ok world args hprep
  obtain ⟨hlen, hbody⟩ := Comp.eachFrom_result_ok.mp hloop
  have hevents : (runPending world uploads args session pending).events ⊆
      (Comp.lift (prepareDelivery world args ops) >>= fun x =>
        runPending world uploads args x.1 x.2 >>= fun y =>
          pure (ResponseDelivery.create x.1.deliveryId args.productId args.datasetId
            x.1.pushingEntityId args.dryRun y.1, y.2)).events :=
    fun e he => Comp.mem_bind_right hprep (Comp.mem_bind_left he)
  refine ⟨hevents (Comp.mem_bind_right hloop (Comp.mem_bind_left
    (submit_posted world args hdry hsubmit))), ?_, ?_, fun i op hi => ?_⟩
  · simp [deliveryOf, createDelivery, hpending.length_eq, hlen]
  · simp [ResponseDelivery.create, hpending.length_eq, hlen]
  · obtain ⟨p, hp, hv⟩ := forall₂_getElem? hpending hi
    obtain ⟨⟨o, r⟩, hor⟩ : ∃ x, processed[i]? = some x :=
      ⟨_, List.getElem?_eq_getElem (hlen ▸ (List.getElem?_eq_some_iff.mp hp).1)⟩
    refine ⟨o, r, by simp [deliveryOf, createDelivery, hor],
      by simp [ResponseDelivery.create, hor], ?_⟩
    have hret := hbody i p _ hp hor
    rw [Nat.zero_add] at hret
    exact (processOperation_corresponds hdry hv hret).mono fun e he =>
      hevents (runPending_events_of_body world uploads args hloop hp he)

/-- Delete, then upload. -/
theorem order_preserved_plain :
    let run := delivery (exampleWorld [("a.nc", 10)]) (exampleUploads (.success (some "t1")))
      exampleArgs [.delete ⟨["b.nc"]⟩, .upload ⟨["a.nc"], none⟩]
    ∃ resp d, run.result = .ok (resp, d) ∧ Event.posted d ∈ run.events ∧
      d.operations.length = 2 ∧ resp.operationsResponses.length = 2 ∧
      ∀ i op, [RequestedOperation.delete ⟨["b.nc"]⟩, .upload ⟨["a.nc"], none⟩][i]? = some op →
        ∃ o r, d.operations[i]? = some o ∧ resp.operationsResponses[i]? = some r ∧
          Corresponds run.events i d.deliveryId "prod" "dset" op o r := by
  intro run
  have hok : run.result.toBool = true := by decide +kernel
  cases hret : run.result with
  | error e => rw [hret] at hok; cases hok
  | ok x => exact ⟨x.1, x.2, rfl, order_preserved rfl hret⟩

end MarineDelivery.Order
