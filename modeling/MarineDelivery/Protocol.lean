import MarineDelivery.Calls
import MarineDelivery.Manifest
import MarineDelivery.WorkerPool

/-!
A call with its worker threads, step by step.

The main thread takes the operations one after the other; for an upload operation it opens a
pool, waits until the pool is left, and builds the operation of the manifest from the results
it has collected. When no operation is left it POSTs the delivery. `protocol_refines` connects
this machine to `runPending`: whatever the interleaving, a call ends as it does when the
uploads are written down one after the other, for some ends of the puts.
-/

namespace MarineDelivery.Protocol

open MarineDelivery.PathLib MarineDelivery.Errors MarineDelivery.Common MarineDelivery.Domain
open MarineDelivery.Validation MarineDelivery.S3 MarineDelivery.OrderedDict
open MarineDelivery.Traced MarineDelivery.Processes MarineDelivery.WorkerPool
open MarineDelivery.Core MarineDelivery.Calls MarineDelivery.Manifest

/-! ### The machine -/

abbrev UploadSetup :=
  Setup (PosixPath × String) PutCall PutAttempt (Except PyError FileResult)

abbrev UploadPool :=
  Pool (PosixPath × String) PutCall PutAttempt (Except PyError FileResult)

/-- Where the main thread is. -/
inductive MainThread
  | between
  | uploading (operation : ToUploadOperation) (keys : Dict PosixPath String) (pool : UploadPool)
  | ended (result : Except PyError (List OperationResponse × Delivery))

/-- The operations still to be processed, and what came of those that have been; the events
of the open pool are kept in the pool. -/
structure State where
  todo : List PendingOperation
  processed : List (Operation × OperationResponse) := []
  main : MainThread := .between
  events : List Event := []

inductive Label
  | next
  | worker (label : WorkerPool.Label (PosixPath × String) PutAttempt)
  | close
  | submit

def eventOf : Move PutCall PutAttempt → Event
  | .asked q => .started q
  | .answered q a => .ended q a

/-- The puts of a trace that have been started. -/
def startedCalls (events : List Event) : List PutCall :=
  events.filterMap fun
    | .started q => some q
    | _ => none

/-- The puts of a trace that have ended, and how. -/
def endedCalls (events : List Event) : List (PutCall × PutAttempt) :=
  events.filterMap fun
    | .ended q a => some (q, a)
    | _ => none

def State.trace (s : State) : List Event :=
  match s.main with
  | .uploading _ _ pool => s.events ++ pool.trace.map eventOf
  | _ => s.events

variable (world : World) (args : CallArgs) (session : Session)
variable (times : ℕ → PosixPath → UploadTimes)

/-- The futures of an operation; one that raised ends the collection. -/
def futures (operation : ℕ) (keys : Dict PosixPath String) : UploadSetup where
  tasks := keys.items
  nodup := keys.nodup_items
  job item := uploadFile (putCall session.s3Client operation args.chunkSizeBytes item)
    (times operation item.1) item.2 item.1 args.dryRun args.raiseOnUploadError
  workers := args.maxConcurrentUploads.toNat
  failing r := !r.toBool

def takeNext (s : State) : Option State :=
  match s.main, s.todo with
  | .between, .delete operation :: todo =>
    some { s with
      todo
      processed := s.processed ++ [(.delete operation, .delete (ResponseDelete.create
        session.deliveryId args.productId args.datasetId session.pushingEntityId args.dryRun
        operation.files))] }
  | .between, .upload operation :: todo =>
    match getLocalPathS3KeysMapping (operation.files.map (·.localPath)) session.deliveryId
        args.productId args.datasetId operation.anchor with
    | .error e => some { s with todo, main := .ended (.error e) }
    | .ok keys =>
      if args.maxConcurrentUploads ≤ 0 then
        some { s with
          todo
          main := .ended (.error (.valueError "max_workers must be greater than 0")) }
      else some { s with todo, main := .uploading operation keys {} }
  | _, _ => none

def workerStep (s : State) (label : WorkerPool.Label (PosixPath × String) PutAttempt) :
    Option State :=
  match s.main with
  | .uploading operation keys pool =>
    (WorkerPool.step (futures args session times s.processed.length keys) pool label).map
      fun pool => { s with main := .uploading operation keys pool }
  | _ => none

/-- What the main thread makes of the results it has collected. -/
def concluded (operation : ToUploadOperation) (pool : UploadPool) :
    Except PyError (PutFilesResult × UploadOperation) :=
  collectResults (pool.collected.map Prod.snd) {} >>=
    concludeUploads operation args.datasetId

def closePool (s : State) : Option State :=
  match s.main with
  | .uploading operation keys pool =>
    if Exited (futures args session times s.processed.length keys) pool then
      match concluded args operation pool with
      | .error e => some { s with main := .ended (.error e), events := s.trace }
      | .ok (putFilesResult, uploadOperation) =>
        some { s with
          processed := s.processed ++ [(.upload uploadOperation, .upload (ResponseUpload.create
            session.deliveryId args.productId args.datasetId session.pushingEntityId args.dryRun
            putFilesResult))]
          main := .between
          events := s.trace }
    else none
  | _ => none

/-- The delivery is submitted, and the call ends. -/
def submitDelivery (s : State) : Option State :=
  match s.main, s.todo with
  | .between, [] =>
    let delivery := deliveryOf args session (s.processed.map Prod.fst)
    let call := submit world args session.config delivery
    some { s with
      main := .ended (call.result.map fun _ => (s.processed.map Prod.snd, delivery))
      events := s.events ++ call.events }
  | _, _ => none

def step (s : State) : Label → Option State
  | .next => takeNext args session s
  | .worker label => workerStep args session times s label
  | .close => closePool args session times s
  | .submit => submitDelivery world args session s

/-! ### Calls -/

/-- A call that uploads: `upload` or `delivery`, with its files. -/
inductive Request
  | upload (files : List String) (anchor : Option String)
  | delivery (operations : List RequestedOperation)

def Request.operations : Request → List RequestedOperation
  | .upload files anchor => [.upload ⟨files, anchor⟩]
  | .delivery operations => operations

/-- What is done before the first operation is processed; no event belongs to it. -/
def Request.prepare : Request → Except PyError (Session × List PendingOperation)
  | .upload files anchor => do
    let (session, operation) ← prepareUpload world args files anchor
    return (session, [.upload operation])
  | .delivery operations => prepareDelivery world args operations

/-- A call that has been accepted is in this state after these steps. -/
def Reaches (request : Request) (labels : List Label) (s : State) : Prop :=
  ∃ session pending, request.prepare world args = .ok (session, pending) ∧
    run (step world args session times) { todo := pending } labels = some s

/-! ### Traces -/

lemma mem_startedCalls {events : List Event} {q : PutCall} :
    q ∈ startedCalls events ↔ Event.started q ∈ events := by
  rw [startedCalls, List.mem_filterMap]
  constructor
  · rintro ⟨e, he, h⟩
    cases e <;> cases h
    exact he
  · intro h
    exact ⟨_, h, rfl⟩

lemma mem_endedCalls {events : List Event} {q : PutCall} {a : PutAttempt} :
    (q, a) ∈ endedCalls events ↔ Event.ended q a ∈ events := by
  rw [endedCalls, List.mem_filterMap]
  constructor
  · rintro ⟨e, he, h⟩
    cases e <;> cases h
    exact he
  · intro h
    exact ⟨_, h, rfl⟩

lemma startedCalls_map_eventOf (trace : List (Move PutCall PutAttempt)) :
    startedCalls (trace.map eventOf) = trace.filterMap Move.asked? := by
  rw [startedCalls, List.filterMap_map]
  exact List.filterMap_congr fun m _ => by cases m <;> rfl

lemma endedCalls_map_eventOf (trace : List (Move PutCall PutAttempt)) :
    endedCalls (trace.map eventOf) = trace.filterMap Move.answered? := by
  rw [endedCalls, List.filterMap_map]
  exact List.filterMap_congr fun m _ => by cases m <;> rfl

lemma posted_notMem_map_eventOf (trace : List (Move PutCall PutAttempt)) (d : Delivery) :
    Event.posted d ∉ trace.map eventOf := by
  intro h
  obtain ⟨m, -, hm⟩ := List.mem_map.mp h
  cases m <;> cases hm

/-! ### One operation, whatever the interleaving -/

/-- Other ends for the uploads of operation `n`. -/
def updateUploads (uploads : Uploads) (n : ℕ) (run : PosixPath → FileRun)
    {items completed : List (PosixPath × String)} (h : completed.Perm items) : Uploads where
  run := Function.update uploads.run n run
  completed m l := if m = n ∧ l = items then completed else uploads.completed m l
  completed_perm m l := by
    split_ifs with hm
    · rw [hm.2]
      exact h
    · exact uploads.completed_perm m l

def fileRun (n : ℕ) (keys : Dict PosixPath String) (answers : PosixPath × String → ℕ → PutAttempt)
    (path : PosixPath) : FileRun :=
  ⟨times n path,
    match keys.get? path with
    | some key => answers (path, key)
    | none => fun _ => default⟩

lemma fileRun_item {n : ℕ} {keys : Dict PosixPath String}
    (answers : PosixPath × String → ℕ → PutAttempt) {item : PosixPath × String}
    (h : item ∈ keys.items) :
    fileRun times n keys answers item.1 = ⟨times n item.1, answers item⟩ := by
  simp only [fileRun, Dict.mem_items_iff.mp h]

lemma processOperation_congr {uploads uploads' : Uploads} {n : ℕ} (client : S3Client)
    (pe did : String) (hrun : uploads.run n = uploads'.run n)
    (hcompleted : uploads.completed n = uploads'.completed n) (p : PendingOperation) :
    processOperation uploads client pe did args n p =
      processOperation uploads' client pe did args n p := by
  cases p with
  | delete op => rfl
  | upload op =>
      simp only [processOperation, putFilesToIngestionSystem, uploadMultipleFiles, hrun,
        hcompleted]

variable {args session times} {n : ℕ} {keys : Dict PosixPath String} {pool : UploadPool}

/-- What is collected is what all futures give. -/
lemma collectResults_collected {completed : List (PosixPath × String)}
    {g : PosixPath × String → Except PyError FileResult}
    (hg : ∀ x ∈ pool.collected, x.2 = g x.1)
    (hinit : pool.collected.map Prod.fst <+: completed)
    (hstop : completed = pool.collected.map Prod.fst ∨
      stopped (futures args session times n keys) pool = true) :
    collectResults (completed.map g) {} = collectResults (pool.collected.map Prod.snd) {} := by
  have hsnd : (pool.collected.map Prod.fst).map g = pool.collected.map Prod.snd := by
    rw [List.map_map]
    exact List.map_congr_left fun x hx => (hg x hx).symm
  obtain ⟨rest, rfl⟩ := hinit
  rw [List.map_append, hsnd]
  rcases hstop with hall | hstop
  · have hrest : rest = [] := by simpa using hall
    rw [hrest, List.map_nil, List.append_nil]
  · obtain ⟨x, hx, hfail⟩ := List.any_eq_true.mp hstop
    cases hres : x.2 with
    | ok r =>
        simp [futures, hres, Except.toBool] at hfail
    | error e =>
        have hmem : .error e ∈ pool.collected.map Prod.snd := by
          rw [← hres]
          exact List.mem_map_of_mem hx
        exact collectResults_append_of_error hmem

lemma mem_trace_iff (hpool : Sound (futures args session times n keys) pool)
    (hexit : Exited (futures args session times n keys) pool)
    {answers : PosixPath × String → ℕ → PutAttempt}
    (hanswers : ∀ x, x ∈ pool.trace.filterMap Move.answered? ↔
      ∃ item ∈ keys.items,
        x ∈ ((futures args session times n keys).job item).exchange (answers item))
    (e : Event) :
    e ∈ pool.trace.map eventOf ↔ ∃ item ∈ keys.items,
      e ∈ putEvents (((futures args session times n keys).job item).exchange
        (answers item)) := by
  cases e with
  | posted d =>
      refine iff_of_false (posted_notMem_map_eventOf _ d) ?_
      rintro ⟨item, -, h⟩
      simp [putEvents] at h
  | started q =>
      rw [← mem_startedCalls, startedCalls_map_eventOf,
        (hpool.answered_of_exited hexit).mem_iff]
      simp only [started_mem_putEvents, List.mem_map, hanswers]
      constructor
      · rintro ⟨⟨_, a⟩, ⟨item, hitem, h⟩, rfl⟩
        exact ⟨item, hitem, a, h⟩
      · rintro ⟨item, hitem, a, h⟩
        exact ⟨(q, a), ⟨item, hitem, h⟩, rfl⟩
  | ended q a =>
      rw [← mem_endedCalls, endedCalls_map_eventOf, hanswers]
      simp only [ended_mem_putEvents]

/-- What the main thread has collected, from the ends of the puts of the mapping. -/
lemma exists_outcome (hpool : Sound (futures args session times n keys) pool)
    (hexit : Exited (futures args session times n keys) pool) :
    ∃ (answers : PosixPath × String → ℕ → PutAttempt) (run : PosixPath → FileRun)
      (completed : List (PosixPath × String)),
      completed.Perm keys.items ∧
      (∀ item ∈ keys.items, run item.1 = ⟨times n item.1, answers item⟩) ∧
      (∀ x, x ∈ pool.trace.filterMap Move.answered? ↔ ∃ item ∈ keys.items,
        x ∈ ((futures args session times n keys).job item).exchange (answers item)) ∧
      collectResults (completed.map fun item =>
        (uploadFile (putCall session.s3Client n args.chunkSizeBytes item)
          (run item.1).toUploadTimes item.2 item.1 args.dryRun args.raiseOnUploadError).result
            (run item.1).attempts) {} = collectResults (pool.collected.map Prod.snd) {} := by
  obtain ⟨answers, hcollected, hanswers⟩ := hpool.exited_run hexit
  obtain ⟨completed, hperm, hinit, hstop⟩ := hpool.exists_completed hexit
  have hitems : ∀ item ∈ keys.items,
      fileRun times n keys answers item.1 = ⟨times n item.1, answers item⟩ :=
    fun item h => fileRun_item times answers h
  have hresults : (completed.map fun item =>
      (uploadFile (putCall session.s3Client n args.chunkSizeBytes item)
        (fileRun times n keys answers item.1).toUploadTimes item.2 item.1 args.dryRun
          args.raiseOnUploadError).result (fileRun times n keys answers item.1).attempts) =
      completed.map fun item =>
        ((futures args session times n keys).job item).result (answers item) := by
    refine List.map_congr_left fun item hitem => ?_
    rw [hitems item (hperm.mem_iff.mp hitem)]
    rfl
  exact ⟨answers, fileRun times n keys answers, completed, hperm, hitems, hanswers,
    hresults ▸ collectResults_collected hcollected hinit hstop⟩

/-- **A closed pool is an operation**: there are ends for its puts with which the operation
gives what the main thread has made of the pool, and has the same events. -/
theorem closed_refines (uploads : Uploads) {op : ToUploadOperation}
    (hkeys : getLocalPathS3KeysMapping (op.files.map (·.localPath)) session.deliveryId
      args.productId args.datasetId op.anchor = .ok keys)
    (hw : 0 < args.maxConcurrentUploads)
    (hpool : Sound (futures args session times n keys) pool)
    (hexit : Exited (futures args session times n keys) pool) :
    ∃ uploads' : Uploads,
      (∀ m ≠ n, uploads'.run m = uploads.run m ∧ uploads'.completed m = uploads.completed m) ∧
      (putFilesToIngestionSystem uploads' n session.s3Client session.deliveryId args op.anchor
        op).result = concluded args op pool ∧
      ∀ e, e ∈ (putFilesToIngestionSystem uploads' n session.s3Client session.deliveryId args
        op.anchor op).events ↔ e ∈ pool.trace.map eventOf := by
  obtain ⟨answers, run, completed, hperm, hitems, hanswers, hresults⟩ :=
    exists_outcome hpool hexit
  have hrun : (updateUploads uploads n run hperm).run n = run := Function.update_self ..
  have hcompleted : (updateUploads uploads n run hperm).completed n keys.items = completed :=
    if_pos ⟨rfl, rfl⟩
  refine ⟨updateUploads uploads n run hperm, fun m hm => ⟨Function.update_of_ne hm _ _,
    funext fun l => by simp [updateUploads, hm]⟩, ?_, fun e => ?_⟩
  · rw [putFilesToIngestionSystem, hkeys, Comp.lift_ok_bind, Comp.bind_result,
      uploadMultipleFiles_result hw hrun hcompleted, hresults]
    rfl
  · rw [mem_trace_iff hpool hexit hanswers, putFilesToIngestionSystem, hkeys,
      Comp.lift_ok_bind, Comp.bind_events_left fun _ => rfl]
    constructor
    · intro he
      obtain ⟨item, hitem, he⟩ := exists_of_mem_uploadMultipleFiles_events he
      rw [hrun, hitems item hitem] at he
      exact ⟨item, hitem, he⟩
    · rintro ⟨item, hitem, he⟩
      refine mem_uploadMultipleFiles_events hw hitem ?_
      rw [hrun, hitems item hitem]
      exact he

/-! ### The invariant -/

/-- The turn of an operation, the puts ending in a given way. -/
abbrev turn (args : CallArgs) (session : Session) (uploads : Uploads) :
    ℕ → PendingOperation → Comp Event PyError (Operation × OperationResponse) :=
  processOperation uploads session.s3Client session.pushingEntityId session.deliveryId args

/-- The loop of a call over some operations, the puts ending in a given way. -/
abbrev loop (args : CallArgs) (session : Session) (uploads : Uploads)
    (done : List PendingOperation) : Comp Event PyError (List (Operation × OperationResponse)) :=
  Comp.eachFrom (turn args session uploads) 0 done

/-- What has been processed so far is what the loop gives on these operations, with the same
events; every put that has been started has ended, and nothing is POSTed. -/
structure LoopSoFar (args : CallArgs) (session : Session) (uploads : Uploads)
    (done : List PendingOperation) (processed : List (Operation × OperationResponse))
    (events : List Event) : Prop where
  result : (loop args session uploads done).result = .ok processed
  mem_events : ∀ e, e ∈ events ↔ e ∈ (loop args session uploads done).events
  balanced : (startedCalls events).Perm ((endedCalls events).map Prod.fst)
  not_posted : ∀ d, Event.posted d ∉ events

variable {uploads uploads' : Uploads} {done : List PendingOperation}
variable {processed : List (Operation × OperationResponse)} {events trace : List Event}
variable {p : PendingOperation}

lemma LoopSoFar.length_eq (h : LoopSoFar args session uploads done processed events) :
    done.length = processed.length :=
  (Comp.eachFrom_result_ok.mp h.result).1

/-- The loop so far does not depend on the puts of later operations. -/
lemma LoopSoFar.congr (h : LoopSoFar args session uploads done processed events)
    (hother : ∀ m ≠ processed.length, uploads'.run m = uploads.run m ∧
      uploads'.completed m = uploads.completed m) :
    LoopSoFar args session uploads' done processed events := by
  have hloop : loop args session uploads' done = loop args session uploads done := by
    refine Comp.eachFrom_congr fun i hi p => ?_
    have hne : 0 + i ≠ processed.length := by
      rw [h.length_eq] at hi
      omega
    exact processOperation_congr args _ _ _ (hother _ hne).1 (hother _ hne).2 p
  exact ⟨hloop ▸ h.result, hloop ▸ h.mem_events, h.balanced, h.not_posted⟩

lemma LoopSoFar.loop_append (h : LoopSoFar args session uploads done processed events)
    (p : PendingOperation) (rest : List PendingOperation) :
    loop args session uploads (done ++ p :: rest) =
      ⟨(loop args session uploads done).events, .ok processed⟩ >>= fun bs =>
        turn args session uploads processed.length p >>= fun b =>
          Comp.eachFrom (turn args session uploads) (processed.length + 1) rest >>= fun cs =>
            pure (bs ++ b :: cs) := by
  have hdone : loop args session uploads done =
      ⟨(loop args session uploads done).events, .ok processed⟩ := Comp.ext rfl h.result
  rw [loop, Comp.eachFrom_append, ← loop, ← hdone, Nat.zero_add, h.length_eq]
  simp only [Comp.eachFrom, bind_assoc, pure_bind]

lemma LoopSoFar.concat (h : LoopSoFar args session uploads done processed events)
    {x : Operation × OperationResponse}
    (hresult : (turn args session uploads processed.length p).result = .ok x)
    (hevents : ∀ e, e ∈ trace ↔ e ∈ (turn args session uploads processed.length p).events)
    (hbalanced : (startedCalls trace).Perm ((endedCalls trace).map Prod.fst))
    (hposted : ∀ d, Event.posted d ∉ trace) :
    LoopSoFar args session uploads (done ++ [p]) (processed ++ [x]) (events ++ trace) := by
  have hloop : loop args session uploads (done ++ [p]) =
      ⟨(loop args session uploads done).events ++
        (turn args session uploads processed.length p).events, .ok (processed ++ [x])⟩ := by
    rw [h.loop_append, Comp.bind_ok rfl, Comp.bind_ok hresult]
    simp
  refine ⟨by rw [hloop], fun e => ?_, ?_, fun d hd => ?_⟩
  · rw [hloop, List.mem_append, List.mem_append, h.mem_events, hevents]
  · simpa only [startedCalls, endedCalls, List.filterMap_append, List.map_append] using
      h.balanced.append hbalanced
  · exact (List.mem_append.mp hd).elim (h.not_posted d) (hposted d)

lemma LoopSoFar.fail (world : World)
    (h : LoopSoFar args session uploads done processed events) {e : PyError}
    (rest : List PendingOperation)
    (hresult : (turn args session uploads processed.length p).result = .error e)
    (hevents : ∀ x, x ∈ trace ↔ x ∈ (turn args session uploads processed.length p).events) :
    (runPending world uploads args session (done ++ p :: rest)).result = .error e ∧
      ∀ x, x ∈ events ++ trace ↔
        x ∈ (runPending world uploads args session (done ++ p :: rest)).events := by
  have hloop : loop args session uploads (done ++ p :: rest) =
      ⟨(loop args session uploads done).events ++
        (turn args session uploads processed.length p).events, .error e⟩ := by
    rw [h.loop_append, Comp.bind_ok rfl, Comp.bind_error hresult]
  have hrun : runPending world uploads args session (done ++ p :: rest) =
      ⟨(loop args session uploads (done ++ p :: rest)).events, .error e⟩ :=
    Comp.bind_error (by rw [← loop, hloop])
  rw [hrun, hloop]
  refine ⟨rfl, fun x => ?_⟩
  rw [List.mem_append, List.mem_append, h.mem_events, hevents]

/-- A call whose operations have all been processed ends with its submission. -/
lemma LoopSoFar.runPending_eq (world : World)
    (h : LoopSoFar args session uploads done processed events) :
    runPending world uploads args session done =
      ⟨(loop args session uploads done).events ++ (submit world args session.config
          (deliveryOf args session (processed.map Prod.fst))).events,
        (submit world args session.config
          (deliveryOf args session (processed.map Prod.fst))).result.map fun _ =>
            (processed.map Prod.snd, deliveryOf args session (processed.map Prod.fst))⟩ := by
  rw [runPending, ← loop, Comp.bind_ok h.result, Comp.bind_pure_events, Comp.bind_pure_result]

/-- What holds of the machine at any time, whatever the interleaving. -/
inductive Inv (world : World) (args : CallArgs) (session : Session)
    (times : ℕ → PosixPath → UploadTimes) (pending : List PendingOperation) : State → Prop
  | between {uploads : Uploads} {done todo : List PendingOperation}
      {processed : List (Operation × OperationResponse)} {events : List Event}
      (hloop : LoopSoFar args session uploads done processed events)
      (hpending : pending = done ++ todo) :
      Inv world args session times pending ⟨todo, processed, .between, events⟩
  | uploading {uploads : Uploads} {done todo : List PendingOperation}
      {processed : List (Operation × OperationResponse)} {events : List Event}
      {op : ToUploadOperation} {keys : Dict PosixPath String} {pool : UploadPool}
      (hloop : LoopSoFar args session uploads done processed events)
      (hpending : pending = done ++ .upload op :: todo)
      (hkeys : getLocalPathS3KeysMapping (op.files.map (·.localPath)) session.deliveryId
        args.productId args.datasetId op.anchor = .ok keys)
      (hw : 0 < args.maxConcurrentUploads)
      (hpool : Sound (futures args session times processed.length keys) pool) :
      Inv world args session times pending ⟨todo, processed, .uploading op keys pool, events⟩
  | failed {uploads : Uploads} {todo : List PendingOperation}
      {processed : List (Operation × OperationResponse)} {events : List Event} {e : PyError}
      (hresult : (runPending world uploads args session pending).result = .error e)
      (hevents : ∀ x, x ∈ events ↔ x ∈ (runPending world uploads args session pending).events)
      (hposted : ∀ d, Event.posted d ∉ events) :
      Inv world args session times pending ⟨todo, processed, .ended (.error e), events⟩
  | submitted {uploads : Uploads} {processed : List (Operation × OperationResponse)}
      {events : List Event} (hloop : LoopSoFar args session uploads pending processed events) :
      Inv world args session times pending
        ⟨[], processed, .ended ((submit world args session.config
            (deliveryOf args session (processed.map Prod.fst))).result.map fun _ =>
              (processed.map Prod.snd, deliveryOf args session (processed.map Prod.fst))),
          events ++ (submit world args session.config
            (deliveryOf args session (processed.map Prod.fst))).events⟩

/-! ### Every step keeps it -/

variable {world} {pending todo : List PendingOperation} {s s' : State}

lemma turn_upload_of_keys_error {op : ToUploadOperation} {e : PyError}
    (hkeys : getLocalPathS3KeysMapping (op.files.map (·.localPath)) session.deliveryId
      args.productId args.datasetId op.anchor = .error e) :
    turn args session uploads n (.upload op) = Comp.throw e := by
  rw [turn, processOperation, putFilesToIngestionSystem, hkeys, Comp.lift_error_bind,
    Comp.throw_bind]

lemma turn_upload_of_no_worker {op : ToUploadOperation}
    (hkeys : getLocalPathS3KeysMapping (op.files.map (·.localPath)) session.deliveryId
      args.productId args.datasetId op.anchor = .ok keys)
    (hw : args.maxConcurrentUploads ≤ 0) :
    turn args session uploads n (.upload op) =
      Comp.throw (.valueError "max_workers must be greater than 0") := by
  rw [turn, processOperation, putFilesToIngestionSystem, hkeys, Comp.lift_ok_bind,
    uploadMultipleFiles, if_pos hw, Comp.throw_bind, Comp.throw_bind]

/-- A turn that fails at once. -/
lemma LoopSoFar.fail_at_once (h : LoopSoFar args session uploads done processed events)
    {e : PyError} (hturn : turn args session uploads processed.length p = Comp.throw e) :
    Inv world args session times (done ++ p :: todo)
      ⟨todo, processed, .ended (.error e), events⟩ := by
  have hnone : ∀ x, x ∈ [] ↔ x ∈ (turn args session uploads processed.length p).events := by
    rw [hturn]
    exact fun _ => Iff.rfl
  obtain ⟨hresult, hevents⟩ := h.fail world todo (by rw [hturn, Comp.throw_result]) hnone
  rw [List.append_nil] at hevents
  exact .failed hresult hevents h.not_posted

lemma Inv.takeNext (hinv : Inv world args session times pending s)
    (h : takeNext args session s = some s') : Inv world args session times pending s' := by
  cases hinv with
  | uploading | failed | submitted => cases h
  | @between uploads done todo processed events hloop hpending =>
      subst hpending
      rcases todo with _ | ⟨op | op, todo⟩
      · cases h
      · cases h
        have hnone : ∀ x, x ∈ [] ↔
            x ∈ (turn args session uploads processed.length (.delete op)).events :=
          fun _ => Iff.rfl
        have hnext := hloop.concat rfl hnone .nil (by simp)
        rw [List.append_nil] at hnext
        exact .between hnext (by simp)
      · rw [Protocol.takeNext] at h
        cases hkeys : getLocalPathS3KeysMapping (op.files.map (·.localPath)) session.deliveryId
            args.productId args.datasetId op.anchor with
        | error e =>
            simp only [hkeys, Option.some.injEq] at h
            subst h
            exact hloop.fail_at_once (turn_upload_of_keys_error hkeys)
        | ok keys =>
            simp only [hkeys] at h
            split_ifs at h with hw
            · cases h
              exact hloop.fail_at_once (turn_upload_of_no_worker hkeys hw)
            · cases h
              exact .uploading hloop rfl hkeys (not_le.mp hw) (sound_initial _)

lemma Inv.workerStep (hinv : Inv world args session times pending s)
    {label : WorkerPool.Label (PosixPath × String) PutAttempt}
    (h : workerStep args session times s label = some s') :
    Inv world args session times pending s' := by
  cases hinv with
  | between | failed | submitted => cases h
  | uploading hloop hpending hkeys hw hpool =>
      obtain ⟨pool', hstep, rfl⟩ := Option.map_eq_some_iff.mp h
      exact .uploading hloop hpending hkeys hw (hpool.step hstep)

lemma turn_upload (uploads : Uploads) (n : ℕ) (op : ToUploadOperation) :
    turn args session uploads n (.upload op) =
      putFilesToIngestionSystem uploads n session.s3Client session.deliveryId args op.anchor op
        >>= fun x => pure (.upload x.2, .upload (ResponseUpload.create session.deliveryId
          args.productId args.datasetId session.pushingEntityId args.dryRun x.1)) := rfl

lemma Inv.closePool (hinv : Inv world args session times pending s)
    (h : closePool args session times s = some s') :
    Inv world args session times pending s' := by
  cases hinv with
  | between | failed | submitted => cases h
  | @uploading uploads done todo processed events op keys pool hloop hpending hkeys hw hpool =>
      subst hpending
      simp only [Protocol.closePool] at h
      split_ifs at h with hexit
      obtain ⟨uploads', hother, hresult, hevents⟩ :=
        closed_refines uploads hkeys hw hpool hexit
      have hsofar := hloop.congr hother
      have hturn : ∀ e, e ∈ pool.trace.map eventOf ↔
          e ∈ (turn args session uploads' processed.length (.upload op)).events := fun e => by
        rw [turn_upload, Comp.bind_pure_events, hevents]
      have hbalanced : (startedCalls (pool.trace.map eventOf)).Perm
          ((endedCalls (pool.trace.map eventOf)).map Prod.fst) := by
        rw [startedCalls_map_eventOf, endedCalls_map_eventOf]
        exact hpool.answered_of_exited hexit
      cases hconcluded : concluded args op pool with
      | error e =>
          simp only [hconcluded, Option.some.injEq] at h
          subst h
          obtain ⟨hend, hmem⟩ := hsofar.fail world todo
            (by rw [turn_upload, Comp.bind_pure_result, hresult, hconcluded]; rfl) hturn
          refine .failed hend hmem fun d hd => ?_
          exact (List.mem_append.mp hd).elim (hloop.not_posted d)
            (posted_notMem_map_eventOf _ d)
      | ok x =>
          simp only [hconcluded, Option.some.injEq] at h
          subst h
          have hnext := hsofar.concat
            (by rw [turn_upload, Comp.bind_pure_result, hresult, hconcluded]; rfl) hturn
            hbalanced (posted_notMem_map_eventOf _)
          exact .between hnext (by simp)

lemma Inv.submitDelivery (hinv : Inv world args session times pending s)
    (h : submitDelivery world args session s = some s') :
    Inv world args session times pending s' := by
  cases hinv with
  | uploading | failed | submitted => cases h
  | @between uploads done todo processed events hloop hpending =>
      rcases todo with _ | ⟨p, todo⟩
      · cases h
        rw [List.append_nil] at hpending
        subst hpending
        exact .submitted hloop
      · cases h

lemma Inv.step (hinv : Inv world args session times pending s) {label : Label}
    (h : step world args session times s label = some s') :
    Inv world args session times pending s' := by
  cases label with
  | next => exact hinv.takeNext h
  | worker label => exact hinv.workerStep h
  | close => exact hinv.closePool h
  | submit => exact hinv.submitDelivery h

lemma inv_initial (pending : List PendingOperation) :
    Inv world args session times pending { todo := pending } :=
  have uploads : Uploads :=
    ⟨fun _ _ => ⟨⟨"", ""⟩, fun _ => default⟩, fun _ items => items, fun _ _ => .refl _⟩
  have hloop : LoopSoFar args session uploads [] [] [] :=
    ⟨rfl, fun _ => Iff.rfl, .nil, by simp⟩
  .between hloop rfl

/-- **The invariant holds in every state that can be reached.** -/
theorem inv_of_run {labels : List Label}
    (h : run (Protocol.step world args session times) { todo := pending } labels =
      some s) : Inv world args session times pending s :=
  run_invariant _ (fun _ _ _ hinv hstep => hinv.step hstep) (inv_initial pending) h

/-- **Whatever the interleaving**, a call that has ended has ended as `runPending` does for some
ends of its puts, and with the same events. -/
theorem protocol_refines {labels : List Label}
    {result : Except PyError (List OperationResponse × Delivery)}
    (h : run (Protocol.step world args session times) { todo := pending } labels =
      some s) (hended : s.main = .ended result) :
    ∃ uploads, (runPending world uploads args session pending).result = result ∧
      ∀ e, e ∈ s.trace ↔ e ∈ (runPending world uploads args session pending).events := by
  cases inv_of_run h with
  | between | uploading => cases hended
  | @failed uploads todo processed events e hresult hevents hposted =>
      cases hended
      exact ⟨uploads, hresult, hevents⟩
  | @submitted uploads processed events hloop =>
      cases hended
      have hrun := hloop.runPending_eq world
      refine ⟨uploads, by rw [hrun], fun e => ?_⟩
      rw [hrun, State.trace, List.mem_append, List.mem_append, hloop.mem_events]

/-! ### The calls themselves -/

lemma prepare_ok {request : Request}
    (h : request.prepare world args = .ok (session, pending)) :
    session.deliveryId = newDeliveryId world args ∧
    List.Forall₂ (fun op p => validateOperation world.fileSystem args op = .ok p)
      request.operations pending := by
  cases request with
  | delivery operations => exact prepareDelivery_ok world args h
  | upload files anchor =>
      obtain ⟨⟨session', op⟩, hprep, he⟩ := bind_eq_ok.mp h
      cases he
      obtain ⟨hid, hop⟩ := prepareUpload_ok world args hprep
      refine ⟨hid, .cons ?_ .nil⟩
      simp [validateOperation, hop]

/-- The call itself, its uploads written down one after the other. -/
def Request.call (world : World) (uploads : Uploads) (args : CallArgs) :
    Request → Comp Event PyError (List OperationResponse × Delivery)
  | .upload files anchor => Core.upload world uploads args files anchor >>= fun y =>
      pure ([.upload y.1], y.2)
  | .delivery operations => Core.delivery world uploads args operations >>= fun y =>
      pure (y.1.operationsResponses, y.2)

lemma Request.call_eq (world : World) (uploads : Uploads) (request : Request) :
    request.call world uploads args = Comp.lift (request.prepare world args) >>= fun x =>
      runPending world uploads args x.1 x.2 := by
  cases request with
  | delivery operations =>
      rw [Request.call, delivery_eq]
      simp only [bind_assoc, pure_bind]
      exact bind_congr fun x => (bind_congr fun y => rfl).trans (bind_pure _)
  | upload files anchor =>
      rw [Request.call, upload_eq]
      simp only [Request.prepare, Comp.lift_bind, Comp.lift_pure, bind_assoc, pure_bind]

/-- **The machine refines the calls**: an accepted call that has ended has ended as `upload` or
`delivery` does for some ends of its puts, and with the same events. -/
theorem reaches_refines {request : Request} {labels : List Label}
    {result : Except PyError (List OperationResponse × Delivery)}
    (h : Reaches world args times request labels s) (hended : s.main = .ended result) :
    ∃ uploads, (request.call world uploads args).result = result ∧
      ∀ e, e ∈ s.trace ↔ e ∈ (request.call world uploads args).events := by
  obtain ⟨session, pending, hprep, hrun⟩ := h
  obtain ⟨uploads, hresult, hevents⟩ := protocol_refines hrun hended
  refine ⟨uploads, ?_⟩
  rw [Request.call_eq, hprep, Comp.lift_ok_bind]
  exact ⟨hresult, hevents⟩

/-! ### A small run, for examples -/

def exampleTimes (_ : ℕ) (_ : PosixPath) : UploadTimes := ⟨"10:00", "10:01"⟩

def putOnce (item : PosixPath × String) (eTag : String) : List Label :=
  [.worker (.start item), .worker (.ask item), .worker (.answer item (.success (some eTag))),
    .worker (.collect item)]

def exampleSession (sizes : List (String × ℕ)) : Session where
  config := ⟨⟨"idp.example", "toolbox", "openid", "password"⟩, ⟨100, 10, 5⟩⟩
  pushingEntityId := "entity"
  deliveryId := newDeliveryId (exampleWorld sizes) exampleArgs
  s3Client := exampleClient

end MarineDelivery.Protocol
