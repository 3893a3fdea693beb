import MarineDelivery.Protocol
import MarineDelivery.Schedules

/-!
The machine with its workers and the calls that are written down in one go.

`reaches_refines` reads every end of the machine as an end of the call. Here the machine is
led to every end of the call, for any answers of the object store, any times, and any order in
which the uploads are collected; so the two have the same ends. The number of workers does not
show in the call, and so it does not show in what the machine can do.
-/

namespace MarineDelivery.Adequacy

open MarineDelivery.PathLib MarineDelivery.Errors MarineDelivery.Common MarineDelivery.Domain
open MarineDelivery.Validation MarineDelivery.S3 MarineDelivery.OrderedDict
open MarineDelivery.Traced MarineDelivery.Processes MarineDelivery.WorkerPool
open MarineDelivery.Core MarineDelivery.Calls MarineDelivery.Manifest MarineDelivery.Protocol
open MarineDelivery.Progress MarineDelivery.Schedules

def timesOf (uploads : Uploads) (n : ℕ) (path : PosixPath) : UploadTimes :=
  (uploads.run n path).toUploadTimes

variable {world : World} {args : CallArgs} {session : Session} (uploads : Uploads)
variable {keys : Dict PosixPath String} {todo : List PendingOperation}
variable {processed : List (Operation × OperationResponse)} {events : List Event}

/-! ### One operation -/

/-- **An operation is a closed pool**, with the workers at hand. -/
lemma exists_closed (session : Session) (n : ℕ) {op : ToUploadOperation}
    (hkeys : getLocalPathS3KeysMapping (op.files.map (·.localPath)) session.deliveryId
      args.productId args.datasetId op.anchor = .ok keys)
    (hw : 0 < args.maxConcurrentUploads) :
    ∃ labels pool,
      run (WorkerPool.step (futures args session (timesOf uploads) n keys)) {} labels =
        some pool ∧
      Exited (futures args session (timesOf uploads) n keys) pool ∧
      concluded args op pool = (putFilesToIngestionSystem uploads n session.s3Client
        session.deliveryId args op.anchor op).result ∧
      ∀ e, e ∈ pool.trace.map eventOf ↔ e ∈ (putFilesToIngestionSystem uploads n
        session.s3Client session.deliveryId args op.anchor op).events := by
  have hworkers : 0 < (futures args session (timesOf uploads) n keys).workers :=
    Int.lt_toNat.mpr hw
  obtain ⟨labels, pool, init, hrun, hexit, hcollected, hinit, hstop, hanswers⟩ :=
    exists_left hworkers (fun item => (uploads.run n item.1).attempts)
      (uploads.completed_perm n keys.items)
  have hpool := sound_of_run hrun
  have hfst : pool.collected.map Prod.fst = init := by rw [hcollected, map_fst_results]
  have hgiven : ∀ x ∈ pool.collected, x.2 =
      ((futures args session (timesOf uploads) n keys).job x.1).result
        (uploads.run n x.1.1).attempts := by
    intro x hx
    rw [hcollected] at hx
    obtain ⟨item, -, rfl⟩ := List.mem_map.mp hx
    rfl
  have hresults := @collectResults_collected args session (timesOf uploads) n keys pool _
    (fun item => ((futures args session (timesOf uploads) n keys).job item).result
      (uploads.run n item.1).attempts) hgiven (hfst ▸ hinit) (hfst ▸ hstop)
  refine ⟨labels, pool, hrun, hexit, ?_, fun e => ?_⟩
  · rw [concluded, ← hresults, putFilesToIngestionSystem, hkeys, Comp.lift_ok_bind,
      Comp.bind_result, uploadMultipleFiles_result hw rfl rfl]
    rfl
  · rw [mem_trace_iff hpool hexit hanswers, putFilesToIngestionSystem, hkeys,
      Comp.lift_ok_bind, Comp.bind_events_left fun _ => rfl]
    constructor
    · rintro ⟨item, hitem, he⟩
      exact mem_uploadMultipleFiles_events hw hitem he
    · intro he
      exact exists_of_mem_uploadMultipleFiles_events he

lemma run_worker {times : ℕ → PosixPath → UploadTimes} {op : ToUploadOperation}
    {labels : List (WorkerPool.Label (PosixPath × String) PutAttempt)} {pool pool' : UploadPool}
    (h : run (WorkerPool.step (futures args session times processed.length keys)) pool labels =
      some pool') :
    run (step world args session times) ⟨todo, processed, .uploading op keys pool, events⟩
      (labels.map .worker) = some ⟨todo, processed, .uploading op keys pool', events⟩ := by
  induction labels generalizing pool with
  | nil =>
      cases h
      rfl
  | cons label labels ih =>
      obtain ⟨pool₁, hstep, hrest⟩ := Option.bind_eq_some_iff.mp h
      have hlabel : step world args session times
          ⟨todo, processed, .uploading op keys pool, events⟩ (.worker label) =
            some ⟨todo, processed, .uploading op keys pool₁, events⟩ := by
        simp only [Protocol.step, workerStep, hstep, Option.map_some]
      rw [List.map_cons, run, hlabel]
      exact ih hrest

/-- What the machine is after the turn of an operation. -/
def Turned (todo : List PendingOperation)
    (processed : List (Operation × OperationResponse)) (events : List Event)
    (turn : Comp Event PyError (Operation × OperationResponse)) (s : State) : Prop :=
  (∀ e, e ∈ s.trace ↔ e ∈ events ∨ e ∈ turn.events) ∧
  match turn.result with
  | .ok x => s.todo = todo ∧ s.processed = processed ++ [x] ∧ s.main = .between
  | .error e => s.main = .ended (.error e)

lemma exists_turned (world : World) (args : CallArgs) (session : Session)
    (todo : List PendingOperation) (processed : List (Operation × OperationResponse))
    (events : List Event) (p : PendingOperation) : ∃ labels s,
    run (step world args session (timesOf uploads)) ⟨p :: todo, processed, .between, events⟩
      labels = some s ∧
    Turned todo processed events (turn args session uploads processed.length p) s := by
  cases p with
  | delete op =>
      refine ⟨[.next], _, rfl, fun e => ?_, rfl, rfl, rfl⟩
      have hnone : e ∉ (turn args session uploads processed.length (.delete op)).events :=
        List.not_mem_nil
      exact ⟨Or.inl, fun h => h.resolve_right hnone⟩
  | upload op =>
      cases hkeys : getLocalPathS3KeysMapping (op.files.map (·.localPath)) session.deliveryId
          args.productId args.datasetId op.anchor with
      | error e =>
          have hnext : step world args session (timesOf uploads)
              ⟨.upload op :: todo, processed, .between, events⟩ .next =
                some ⟨todo, processed, .ended (.error e), events⟩ := by
            simp only [Protocol.step, takeNext, hkeys]
          refine ⟨[.next], _, by rw [run, hnext]; rfl, ?_⟩
          rw [turn_upload_of_keys_error hkeys]
          exact ⟨fun x => by simp [State.trace], rfl⟩
      | ok keys =>
          by_cases hw : args.maxConcurrentUploads ≤ 0
          · have hnext : step world args session (timesOf uploads)
                ⟨.upload op :: todo, processed, .between, events⟩ .next =
                  some ⟨todo, processed, .ended (.error
                    (.valueError "max_workers must be greater than 0")), events⟩ := by
              simp only [Protocol.step, takeNext, hkeys, if_pos hw]
            refine ⟨[.next], _, by rw [run, hnext]; rfl, ?_⟩
            rw [turn_upload_of_no_worker hkeys hw]
            exact ⟨fun x => by simp [State.trace], rfl⟩
          · have hnext : step world args session (timesOf uploads)
                ⟨.upload op :: todo, processed, .between, events⟩ .next =
                  some ⟨todo, processed, .uploading op keys {}, events⟩ := by
              simp only [Protocol.step, takeNext, hkeys, if_neg hw]
            obtain ⟨labels, pool, hpool, hexit, hconcluded, hevents⟩ :=
              exists_closed uploads session processed.length hkeys (not_le.mp hw)
            have hturn : ∀ e, e ∈ events ++ pool.trace.map eventOf ↔ e ∈ events ∨
                e ∈ (turn args session uploads processed.length (.upload op)).events := by
              intro e
              rw [List.mem_append, hevents, turn_upload, Comp.bind_pure_events]
            have hresult : (turn args session uploads processed.length (.upload op)).result =
                (concluded args op pool).map fun x => (.upload x.2, .upload
                  (ResponseUpload.create session.deliveryId args.productId args.datasetId
                    session.pushingEntityId args.dryRun x.1)) := by
              rw [turn_upload, Comp.bind_pure_result, hconcluded]
            have hclose : ∃ s, step world args session (timesOf uploads)
                ⟨todo, processed, .uploading op keys pool, events⟩ .close = some s ∧
                Turned todo processed events
                  (turn args session uploads processed.length (.upload op)) s := by
              unfold Turned
              rw [hresult]
              simp only [Protocol.step, closePool, if_pos hexit]
              cases concluded args op pool with
              | error e => exact ⟨_, rfl, hturn, rfl⟩
              | ok x => exact ⟨_, rfl, hturn, rfl, rfl, rfl⟩
            obtain ⟨s, hclosed, hturned⟩ := hclose
            refine ⟨.next :: (labels.map .worker ++ [.close]), s, ?_, hturned⟩
            rw [run, hnext, Option.bind_some, run_append, run_worker hpool, Option.bind_some, run,
              hclosed]
            rfl

/-! ### A whole call -/

def remainder (world : World) (args : CallArgs) (session : Session) (uploads : Uploads)
    (todo : List PendingOperation) (processed : List (Operation × OperationResponse)) :
    Comp Event PyError (List OperationResponse × Delivery) := do
  let rest ← Comp.eachFrom (turn args session uploads) processed.length todo
  let delivery := deliveryOf args session ((processed ++ rest).map Prod.fst)
  submit world args session.config delivery
  return ((processed ++ rest).map Prod.snd, delivery)

lemma remainder_cons (p : PendingOperation) :
    remainder world args session uploads (p :: todo) processed =
      turn args session uploads processed.length p >>= fun x =>
        remainder world args session uploads todo (processed ++ [x]) := by
  unfold remainder
  rw [Comp.eachFrom, bind_assoc]
  refine bind_congr fun x => ?_
  rw [bind_assoc, List.length_append, List.length_singleton]
  refine bind_congr fun rest => ?_
  rw [pure_bind, List.append_assoc, List.singleton_append]

lemma exists_ended (world : World) (args : CallArgs) (session : Session)
    (todo : List PendingOperation) (processed : List (Operation × OperationResponse))
    (events : List Event) : ∃ labels s,
    run (Protocol.step world args session (timesOf uploads)) ⟨todo, processed, .between, events⟩
      labels = some s ∧
    s.main = .ended (remainder world args session uploads todo processed).result ∧
    ∀ e, e ∈ s.trace ↔
      e ∈ events ∨ e ∈ (remainder world args session uploads todo processed).events := by
  induction todo generalizing processed events with
  | nil =>
      have hremainder : remainder world args session uploads [] processed =
          submit world args session.config (deliveryOf args session (processed.map Prod.fst)) >>=
            fun _ => pure (processed.map Prod.snd,
              deliveryOf args session (processed.map Prod.fst)) := by
        unfold remainder
        rw [Comp.eachFrom_nil, pure_bind, List.append_nil]
      rw [hremainder, Comp.bind_pure_result, Comp.bind_pure_events]
      exact ⟨[.submit], _, rfl, rfl, fun e => List.mem_append⟩
  | cons p todo ih =>
      obtain ⟨labels, s, hrun, hevents, hturned⟩ :=
        exists_turned uploads world args session todo processed events p
      rw [remainder_cons]
      cases hresult : (turn args session uploads processed.length p).result with
      | error e =>
          rw [hresult] at hturned
          rw [Comp.bind_error hresult]
          exact ⟨labels, s, hrun, hturned, hevents⟩
      | ok x =>
          rw [hresult] at hturned
          rw [Comp.bind_ok hresult]
          obtain ⟨todo', processed', main, events'⟩ := s
          obtain ⟨rfl, rfl, rfl⟩ := hturned
          obtain ⟨more, s', hmore, hended, htrace⟩ := ih (processed ++ [x]) events'
          refine ⟨labels ++ more, s', ?_, hended, fun e => ?_⟩
          · rw [run_append, hrun]
            exact hmore
          · have hbefore : e ∈ events' ↔ _ := hevents e
            rw [htrace, hbefore, List.mem_append, or_assoc]

/-- How the machine can end: what it returns or raises, and its events. -/
def machineEnds (world : World) (args : CallArgs) (request : Request) :
    Set (Except PyError (List OperationResponse × Delivery) × Set Event) :=
  {b | ∃ times labels s, Reaches world args times request labels s ∧ s.main = .ended b.1 ∧
    ∀ e, e ∈ b.2 ↔ e ∈ s.trace}

/-- How the call can end when its uploads are written down one after the other. -/
def callEnds (world : World) (args : CallArgs) (request : Request) :
    Set (Except PyError (List OperationResponse × Delivery) × Set Event) :=
  {b | ∃ uploads, (request.call world uploads args).result = b.1 ∧
    ∀ e, e ∈ b.2 ↔ e ∈ (request.call world uploads args).events}

variable {request : Request}

lemma ends_of_prepare {x : Session × List PendingOperation}
    (hprep : request.prepare world args = .ok x) :
    machineEnds world args request = callEnds world args request := by
  ext ⟨result, effects⟩
  constructor
  · rintro ⟨times, labels, s, hreaches, hended, heffects⟩
    obtain ⟨uploads, hresult, hevents⟩ := reaches_refines hreaches hended
    exact ⟨uploads, hresult, fun e => (heffects e).trans (hevents e)⟩
  · rintro ⟨uploads, rfl, heffects⟩
    obtain ⟨labels, s, hrun, hended, htrace⟩ := exists_ended uploads world args x.1 x.2 [] []
    have hcall : request.call world uploads args =
        remainder world args x.1 uploads x.2 [] := by
      rw [Request.call_eq, hprep, Comp.lift_ok_bind]
      rfl
    refine ⟨timesOf uploads, labels, s, ⟨x.1, x.2, hprep, hrun⟩, hcall ▸ hended, fun e => ?_⟩
    rw [heffects, htrace, hcall]
    simp

/-- A call that is not accepted has no end of the machine. -/
lemma mem_machineEnds_iff {b : Except PyError (List OperationResponse × Delivery) × Set Event} :
    b ∈ machineEnds world args request ↔
      (∃ x, request.prepare world args = .ok x) ∧ b ∈ callEnds world args request := by
  constructor
  · intro h
    obtain ⟨times, labels, s, ⟨session, pending, hprep, hrun⟩, hend⟩ := h
    rw [← ends_of_prepare hprep]
    exact ⟨⟨_, hprep⟩, times, labels, s, ⟨session, pending, hprep, hrun⟩, hend⟩
  · rintro ⟨⟨x, hprep⟩, h⟩
    exact ends_of_prepare hprep ▸ h

/-- **The machine and the call have the same ends**: what an accepted call returns or raises and
does to the services under some interleaving of its workers is what it does with its uploads
written down in order, for some answers, and there is an interleaving for every such end. -/
theorem ends_agree {x : Session × List PendingOperation}
    (hprep : request.prepare world args = .ok x) :
    machineEnds world args request = callEnds world args request :=
  ends_of_prepare hprep

theorem ends_agree_pair :
    machineEnds (exampleWorld [("a.nc", 10), ("b.nc", 20)]) exampleArgs
        (.upload ["a.nc", "b.nc"] none) =
      callEnds (exampleWorld [("a.nc", 10), ("b.nc", 20)]) exampleArgs
        (.upload ["a.nc", "b.nc"] none) := by
  have hprep : ((Request.upload ["a.nc", "b.nc"] none).prepare
      (exampleWorld [("a.nc", 10), ("b.nc", 20)]) exampleArgs).toBool = true := by
    decide +kernel
  cases hp : (Request.upload ["a.nc", "b.nc"] none).prepare
      (exampleWorld [("a.nc", 10), ("b.nc", 20)]) exampleArgs with
  | error e =>
      rw [hp] at hprep
      cases hprep
  | ok x => exact ends_agree hp

/-! ### Any number of workers -/

lemma turn_workers {k : ℤ} (hw : 0 < args.maxConcurrentUploads) (hk : 0 < k) (n : ℕ)
    (p : PendingOperation) :
    turn { args with maxConcurrentUploads := k } session uploads n p =
      turn args session uploads n p := by
  cases p with
  | delete op => rfl
  | upload op =>
      have hput : putFilesToIngestionSystem uploads n session.s3Client session.deliveryId
            { args with maxConcurrentUploads := k } op.anchor op =
          putFilesToIngestionSystem uploads n session.s3Client session.deliveryId args op.anchor
            op := by
        refine bind_congr fun keys => ?_
        dsimp only
        rw [uploadMultipleFiles, uploadMultipleFiles, if_neg (not_le.mpr hw),
          if_neg (not_le.mpr hk)]
      rw [turn_upload, turn_upload, hput]

lemma call_workers {k : ℤ} (hw : 0 < args.maxConcurrentUploads) (hk : 0 < k) :
    request.call world uploads { args with maxConcurrentUploads := k } =
      request.call world uploads args := by
  have hprep : request.prepare world { args with maxConcurrentUploads := k } =
      request.prepare world args := by cases request <;> rfl
  rw [Request.call_eq, Request.call_eq, hprep]
  refine bind_congr fun x => ?_
  have hloop : loop { args with maxConcurrentUploads := k } x.1 uploads x.2 =
      loop args x.1 uploads x.2 := Comp.eachFrom_congr fun i _ p => turn_workers uploads hw hk _ p
  unfold runPending
  rw [← loop, hloop]
  rfl

/-- **The number of workers changes nothing** of what a call can return, raise or do, as long
as there is one. -/
theorem workers_irrelevant {k : ℤ} (world : World) (request : Request)
    (hw : 0 < args.maxConcurrentUploads) (hk : 0 < k) :
    machineEnds world { args with maxConcurrentUploads := k } request =
      machineEnds world args request := by
  have hprep : request.prepare world { args with maxConcurrentUploads := k } =
      request.prepare world args := by cases request <;> rfl
  ext b
  rw [mem_machineEnds_iff, mem_machineEnds_iff, hprep]
  simp only [callEnds, Set.mem_ofPred_eq, call_workers _ hw hk]

theorem workers_irrelevant_single :
    machineEnds (exampleWorld [("a.nc", 10), ("b.nc", 20)])
        { exampleArgs with maxConcurrentUploads := 1 } (.upload ["a.nc", "b.nc"] none) =
      machineEnds (exampleWorld [("a.nc", 10), ("b.nc", 20)]) exampleArgs
        (.upload ["a.nc", "b.nc"] none) :=
  workers_irrelevant _ _ (by decide) Int.one_pos

end MarineDelivery.Adequacy
