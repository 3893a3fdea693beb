import MarineDelivery.Commit

/-!
On whose behalf a call acts.

A call asks once which pushing entity it acts for, and whether this one may deliver to the
dataset. From then on nothing else is used: every put of every run goes to the bucket of that
entity, for a file that was requested and to a key of the delivery, and the delivery that is
POSTed names that entity.
-/

namespace MarineDelivery.Identity

open MarineDelivery.PathLib MarineDelivery.PathLib.PosixPath MarineDelivery.Errors
open MarineDelivery.Common MarineDelivery.Domain MarineDelivery.Validation MarineDelivery.S3
open MarineDelivery.OrderedDict MarineDelivery.Traced MarineDelivery.Processes
open MarineDelivery.WorkerPool MarineDelivery.WorkerPool.Status MarineDelivery.Core
open MarineDelivery.Calls MarineDelivery.Manifest MarineDelivery.Protocol
open MarineDelivery.Commit (postedDelivery exampleItem)

/-! ### What may be done -/

/-- The service has named this pushing entity, and the dataset is one of its own. -/
structure ActsFor (world : World) (args : CallArgs) (pec : GetPushingEntityConfigResponse) :
    Prop where
  named : ∃ config token, world.getConfig = .ok config ∧
    world.fetchKeycloakToken config = .ok token ∧
    world.getPushingEntityConfig token (truthy args.onBehalfOf) = .ok pec
  registered : ∃ product ∈ pec.pushingEntity.products,
    product.productId = args.productId ∧ args.datasetId ∈ product.datasets

def clientOf (args : CallArgs) (pec : GetPushingEntityConfigResponse) : S3Client :=
  ⟨pec.pushingEntity.bucket, pec.s3EndpointUrl, pec.pushingEntity.name, args.onBehalfOf,
    args.chunkConcurrency⟩

/-- The put of a requested file, in the bucket of the entity and under the id of the call. -/
structure Permitted (world : World) (args : CallArgs) (request : Request)
    (pec : GetPushingEntityConfigResponse) (q : PutCall) : Prop where
  client : q.client = clientOf args pec
  chunkSize : q.chunkSize = args.chunkSizeBytes
  file : ∃ u, request.operations[q.operation]? = some (.upload u) ∧ ∃ f ∈ u.files,
    q.file = ofString f ∧ q.key = ingestionKey (newDeliveryId world args) args.productId
      args.datasetId u.anchor f

/-- A delivery of the entity, with the ids of the call and an operation for every one that was
requested. -/
structure InName (world : World) (args : CallArgs) (request : Request)
    (pec : GetPushingEntityConfigResponse) (d : Delivery) : Prop where
  pushingEntityId : d.pushingEntityId = pec.pushingEntity.name
  productId : d.productId = args.productId
  datasetId : d.datasetId = args.datasetId
  deliveryId : d.deliveryId = newDeliveryId world args
  operations : d.operations.length = request.operations.length

def callOf : Event → Option PutCall
  | .started q | .ended q _ => some q
  | .posted _ => none

/-! ### The session -/

variable {world : World} {args : CallArgs} {request : Request} {session : Session}
variable {pending : List PendingOperation}

lemma registered_of_validateDeliveryIds {pe pid ds : String} {entity : PushingEntity}
    (h : validateDeliveryIds pe pid ds entity = .ok ()) :
    ∃ product ∈ entity.products, product.productId = pid ∧ ds ∈ product.datasets := by
  unfold validateDeliveryIds at h
  cases hfind : entity.products.find? (·.productId = pid) with
  | none =>
      rw [hfind] at h
      cases h
  | some product =>
      rw [hfind] at h
      dsimp only at h
      split_ifs at h with hds
      have hid := List.find?_some hfind
      exact ⟨product, List.mem_of_find?_eq_some hfind, of_decide_eq_true hid, hds⟩

lemma actsFor_of_identify {config : GetConfigResponse} {pec : GetPushingEntityConfigResponse}
    (h : identify world args = .ok (config, pec)) : ActsFor world args pec := by
  unfold identify at h
  simp only [bind_eq_ok, pure_eq_ok] at h
  obtain ⟨_, hconfig, token, htoken, _, hpec, _, hids, he⟩ := h
  cases he
  exact ⟨⟨config, token, hconfig, htoken, hpec⟩, registered_of_validateDeliveryIds hids⟩

lemma openBucket_ok {pec : GetPushingEntityConfigResponse} {client : S3Client}
    (h : openBucket world args pec = .ok client) : client = clientOf args pec := by
  unfold openBucket getS3IngestionClient at h
  obtain ⟨_, -, he⟩ := bind_eq_ok.mp h
  exact (Except.ok.inj he).symm

/-- What a session has is that of one pushing entity. -/
lemma exists_actsFor (h : request.prepare world args = .ok (session, pending)) :
    ∃ pec, ActsFor world args pec ∧ session.pushingEntityId = pec.pushingEntity.name ∧
      session.s3Client = clientOf args pec := by
  cases request with
  | upload files anchor =>
      unfold Request.prepare prepareUpload at h
      simp only [bind_eq_ok, pure_eq_ok] at h
      obtain ⟨_, ⟨⟨config, pec⟩, hidentify, _, -, _, -, client, hopen, rfl⟩, he⟩ := h
      cases he
      exact ⟨pec, actsFor_of_identify hidentify, rfl, openBucket_ok hopen⟩
  | delivery operations =>
      unfold Request.prepare prepareDelivery at h
      simp only [bind_eq_ok, pure_eq_ok] at h
      obtain ⟨⟨config, pec⟩, hidentify, client, hopen, _, -, _, -, he⟩ := h
      cases he
      exact ⟨pec, actsFor_of_identify hidentify, rfl, openBucket_ok hopen⟩

/-! ### The puts -/

/-- A put of a file of this operation. -/
def PutsFor (args : CallArgs) (session : Session) (i : ℕ) (p : PendingOperation)
    (q : PutCall) : Prop :=
  ∃ op keys, p = .upload op ∧ getLocalPathS3KeysMapping (op.files.map (·.localPath))
      session.deliveryId args.productId args.datasetId op.anchor = .ok keys ∧
    ∃ item ∈ keys.items, ∃ m, q = putCall session.s3Client i args.chunkSizeBytes item m

variable {uploads : Uploads} {times : ℕ → PosixPath → UploadTimes} {i n : ℕ} {q : PutCall}
variable {e : Event}

lemma putsFor_of_turn {p : PendingOperation} (he : e ∈ (turn args session uploads i p).events)
    (hq : callOf e = some q) : PutsFor args session i p q := by
  cases p with
  | delete op => cases he
  | upload op =>
      rw [turn_upload, Comp.bind_pure_events, putFilesToIngestionSystem] at he
      rcases Comp.mem_bind he with he | ⟨keys, hkeys, he⟩
      · cases he
      rw [Comp.bind_events_left fun _ => rfl] at he
      obtain ⟨item, hitem, he⟩ := exists_of_mem_uploadMultipleFiles_events he
      refine ⟨op, keys, rfl, hkeys, item, hitem, ?_⟩
      have hcalls := (leads_uploadFile_calls (leads_exchange (uploadFile (putCall session.s3Client
        i args.chunkSizeBytes item) (uploads.run i item.1).toUploadTimes item.2 item.1 args.dryRun
          args.raiseOnUploadError) (uploads.run i item.1).attempts)).1
      cases e with
      | posted d => cases hq
      | started q' =>
          cases hq
          obtain ⟨a, ha⟩ := started_mem_putEvents.mp he
          exact hcalls _ ha
      | ended q' a =>
          cases hq
          exact hcalls _ (ended_mem_putEvents.mp he)

lemma putsFor_of_loop {done : List PendingOperation}
    (he : e ∈ (loop args session uploads done).events) (hq : callOf e = some q) :
    ∃ i p, done[i]? = some p ∧ PutsFor args session i p q := by
  obtain ⟨i, p, hp, hturn⟩ := Comp.mem_eachFrom_events he
  rw [Nat.zero_add] at hturn
  exact ⟨i, p, hp, putsFor_of_turn hturn hq⟩

lemma putsFor_of_pool {op : ToUploadOperation} {keys : Dict PosixPath String}
    {pool : UploadPool}
    (hkeys : getLocalPathS3KeysMapping (op.files.map (·.localPath)) session.deliveryId
      args.productId args.datasetId op.anchor = .ok keys)
    (hpool : Sound (futures args session times n keys) pool)
    (he : e ∈ pool.trace.map eventOf) (hq : callOf e = some q) :
    PutsFor args session n (.upload op) q := by
  refine ⟨op, keys, rfl, hkeys, ?_⟩
  have hanswered : ∀ x, x ∈ pool.trace.filterMap Move.answered? →
      ∃ item ∈ keys.items, ∃ m, x.1 = putCall session.s3Client n args.chunkSizeBytes item m := by
    intro x hx
    obtain ⟨item, hlog⟩ := (hpool.answered x).mp hx
    have hfollows := hpool.follows item
    have hitem : item ∈ keys.items := by
      refine hpool.known item ?_
      cases hs : pool.status item with
      | queued =>
          rw [hs] at hlog
          cases hlog
      | running | finished => rfl
    cases hs : pool.status item with
    | queued =>
        rw [hs] at hlog
        cases hlog
    | running log q' next asked | finished log r =>
        rw [hs] at hlog hfollows
        exact ⟨item, hitem, (leads_uploadFile_calls hfollows).1 _ hlog⟩
  have hasked : ∀ q, q ∈ pool.trace.filterMap Move.asked? →
      ∃ item ∈ keys.items, ∃ m, q = putCall session.s3Client n args.chunkSizeBytes item m := by
    intro q hq
    rcases List.mem_append.mp (hpool.asked.mem_iff.mp hq) with hq | hq
    · obtain ⟨x, hx, rfl⟩ := List.mem_map.mp hq
      exact hanswered x hx
    · obtain ⟨item, hitem, hpending⟩ := List.mem_filterMap.mp hq
      have hfollows := hpool.follows item
      cases hs : pool.status item with
      | queued | finished log r =>
          rw [hs] at hpending
          cases hpending
      | running log q' next asked =>
          rw [hs] at hpending hfollows
          cases asked with
          | false => cases hpending
          | true =>
              cases hpending
              exact ⟨item, hitem, (leads_uploadFile_calls hfollows).2 _ _ rfl⟩
  cases e with
  | posted d => cases hq
  | started q' =>
      cases hq
      rw [← mem_startedCalls, startedCalls_map_eventOf] at he
      exact hasked _ he
  | ended q' a =>
      cases hq
      rw [← mem_endedCalls, endedCalls_map_eventOf] at he
      exact hanswered (_, a) he

/-- **Every put of a run is for a file of an operation.** -/
lemma exists_putsFor {s : State} (hinv : Inv world args session times pending s)
    (he : e ∈ s.trace) (hq : callOf e = some q) :
    ∃ i p, pending[i]? = some p ∧ PutsFor args session i p q := by
  have hbefore : ∀ {uploads : Uploads} {done : List PendingOperation}, done <+: pending →
      e ∈ (loop args session uploads done).events →
      ∃ i p, pending[i]? = some p ∧ PutsFor args session i p q := by
    rintro uploads done ⟨todo, rfl⟩ hloop
    obtain ⟨i, p, hp, hputs⟩ := putsFor_of_loop hloop hq
    have hi := (List.getElem?_eq_some_iff.mp hp).1
    exact ⟨i, p, by rw [List.getElem?_append_left hi, hp], hputs⟩
  have hrest : ∀ {config : GetConfigResponse} {d : Delivery},
      e ∉ (submit world args config d).events := by
    intro config d hsubmit
    rw [eq_posted_of_mem_submit _ _ hsubmit] at hq
    cases hq
  cases hinv with
  | @between uploads done todo processed events hloop hpending =>
      exact hbefore ⟨todo, hpending.symm⟩ ((hloop.mem_events _).mp he)
  | @uploading uploads done todo processed events op keys pool hloop hpending hkeys hw hpool =>
      rcases List.mem_append.mp he with he | he
      · exact hbefore ⟨_, hpending.symm⟩ ((hloop.mem_events _).mp he)
      · refine ⟨processed.length, .upload op, ?_, putsFor_of_pool hkeys hpool he hq⟩
        rw [hpending, ← hloop.length_eq]
        simp
  | @failed uploads todo processed events err hresult hevents hposted =>
      rcases Comp.mem_bind ((hevents _).mp he) with he | ⟨processed, -, he⟩
      · exact hbefore (List.prefix_refl _) he
      · rcases Comp.mem_bind he with he | ⟨_, -, he⟩
        · exact absurd he hrest
        · cases he
  | @submitted uploads processed events hloop =>
      rcases List.mem_append.mp he with he | he
      · exact hbefore (List.prefix_refl _) ((hloop.mem_events _).mp he)
      · exact absurd he hrest

lemma PutsFor.permitted {pec : GetPushingEntityConfigResponse} {p : PendingOperation}
    (h : PutsFor args session i p q) (hclient : session.s3Client = clientOf args pec)
    (hid : session.deliveryId = newDeliveryId world args)
    (hv : List.Forall₂ (fun op p => validateOperation world.fileSystem args op = .ok p)
      request.operations pending) (hp : pending[i]? = some p) :
    Permitted world args request pec q := by
  obtain ⟨op, keys, rfl, hkeys, item, hitem, m, rfl⟩ := h
  obtain ⟨requested, hrequested, hvalid⟩ := forall₂_getElem? hv.flip hp
  refine ⟨hclient, rfl, ?_⟩
  cases requested with
  | delete d =>
      obtain ⟨operation, -, he⟩ := bind_eq_ok.mp hvalid
      cases he
  | upload u =>
      obtain ⟨operation, hop, he⟩ := bind_eq_ok.mp hvalid
      cases he
      obtain ⟨-, -, -, rfl⟩ := createAndValidateToUploadOperation_ok_iff.mp hop
      obtain ⟨-, rfl⟩ := getLocalPathS3KeysMapping_ok_iff.mp hkeys
      rw [map_localPath_fileToUpload] at hitem
      obtain ⟨f, hf, rfl⟩ := mem_ingestionKeys hitem
      exact ⟨u, hrequested, f, hf, rfl, hid ▸ rfl⟩

lemma permitted_of_run {pec : GetPushingEntityConfigResponse} {labels : List Label} {s : State}
    (hprep : request.prepare world args = .ok (session, pending))
    (hrun : run (Protocol.step world args session times) { todo := pending } labels = some s)
    (hclient : session.s3Client = clientOf args pec) (he : e ∈ s.trace)
    (hq : callOf e = some q) : Permitted world args request pec q := by
  obtain ⟨hid, hv⟩ := prepare_ok hprep
  obtain ⟨i, p, hp, hputs⟩ := exists_putsFor (inv_of_run hrun) he hq
  exact hputs.permitted hclient hid hv hp

/-! ### The delivery -/

lemma inName_of_posted {s : State} {pec : GetPushingEntityConfigResponse} {d : Delivery}
    (hinv : Inv world args session times pending s) (hposted : Event.posted d ∈ s.trace)
    (hname : session.pushingEntityId = pec.pushingEntity.name)
    (hid : session.deliveryId = newDeliveryId world args)
    (hlength : request.operations.length = pending.length) :
    InName world args request pec d := by
  cases hinv with
  | between hloop => exact absurd hposted (hloop.not_posted d)
  | failed _ _ hno => exact absurd hposted (hno d)
  | uploading hloop =>
      exact absurd (List.mem_append.mp hposted)
        (not_or.mpr ⟨hloop.not_posted d, posted_notMem_map_eventOf _ d⟩)
  | @submitted uploads processed events hloop =>
      have hd : d = deliveryOf args session (processed.map Prod.fst) := by
        rcases List.mem_append.mp hposted with hmem | hmem
        · exact absurd hmem (hloop.not_posted d)
        · exact Event.posted.inj (eq_posted_of_mem_submit _ _ hmem)
      subst hd
      refine ⟨hname, rfl, rfl, hid, ?_⟩
      rw [hlength, hloop.length_eq]
      exact List.length_map _

/-- **A call acts for one pushing entity**, in every state of every run: for the one that the
service has named and that may deliver this dataset. Every put is that of a requested file, to
the bucket of this entity and under the id of the call; what is POSTed is in its name. -/
theorem identity_kept {labels : List Label} {s : State}
    (h : Reaches world args times request labels s) :
    ∃ pec, ActsFor world args pec ∧
      (∀ e ∈ s.trace, ∀ q, callOf e = some q → Permitted world args request pec q) ∧
      ∀ d, Event.posted d ∈ s.trace → InName world args request pec d := by
  obtain ⟨session, pending, hprep, hrun⟩ := h
  have hinv := inv_of_run hrun
  obtain ⟨hid, hv⟩ := prepare_ok hprep
  obtain ⟨pec, hacts, hname, hclient⟩ := exists_actsFor hprep
  refine ⟨pec, hacts, fun e he q hq => ?_, fun d hd => ?_⟩
  · exact permitted_of_run hprep hrun hclient he hq
  · exact inName_of_posted hinv hd hname hid hv.length_eq

def submittedLabels : List Label :=
  .next :: putOnce exampleItem "t1" ++ [.close, .submit]

lemma exists_submitted : ∃ s : State, (s.trace.filterMap callOf).length = 2 ∧
    (s.trace.filterMap postedDelivery).length = 1 ∧
    Reaches (exampleWorld [("a.nc", 10)]) exampleArgs exampleTimes (.upload ["a.nc"] none)
      submittedLabels s := by
  have hprep : (Request.upload ["a.nc"] none).prepare (exampleWorld [("a.nc", 10)]) exampleArgs =
      .ok (exampleSession [("a.nc", 10)],
        [.upload ⟨[fileToUpload (exampleWorld [("a.nc", 10)]).fileSystem "a.nc"], none⟩]) := by
    decide +kernel
  have hrun : ((run (Protocol.step (exampleWorld [("a.nc", 10)]) exampleArgs
      (exampleSession [("a.nc", 10)]) exampleTimes) { todo := [.upload ⟨[fileToUpload
        (exampleWorld [("a.nc", 10)]).fileSystem "a.nc"], none⟩] } submittedLabels).map fun s =>
      ((s.trace.filterMap callOf).length, (s.trace.filterMap postedDelivery).length)) =
        some (2, 1) := by
    decide +kernel
  obtain ⟨s, hs, hlengths⟩ := Option.map_eq_some_iff.mp hrun
  exact ⟨s, congrArg Prod.fst hlengths, congrArg Prod.snd hlengths, _, _, hprep, hs⟩

theorem identity_kept_submitted : ∃ s : State, (s.trace.filterMap callOf).length = 2 ∧
    (s.trace.filterMap postedDelivery).length = 1 ∧
    ∃ pec, ActsFor (exampleWorld [("a.nc", 10)]) exampleArgs pec ∧
      (∀ e ∈ s.trace, ∀ q, callOf e = some q →
        Permitted (exampleWorld [("a.nc", 10)]) exampleArgs (.upload ["a.nc"] none) pec q) ∧
      ∀ d, Event.posted d ∈ s.trace →
        InName (exampleWorld [("a.nc", 10)]) exampleArgs (.upload ["a.nc"] none) pec d := by
  obtain ⟨s, hputs, hposts, hreaches⟩ := exists_submitted
  exact ⟨s, hputs, hposts, identity_kept hreaches⟩

end MarineDelivery.Identity
