import MarineDelivery.Completion
import MarineDelivery.Puts
import MarineDelivery.Termination

/-!
The interleaving of the worker threads does not show in the end of a call.

Where the object store answers every put alike, two calls can still take different steps: the
workers take turns as they please and the results come in any order. Both end as the call does
whose uploads are written down in the order of the mapping, up to the order of failed files,
and both have done the same, put by put.
-/

namespace MarineDelivery.Confluence

open MarineDelivery.PathLib MarineDelivery.Errors MarineDelivery.Common MarineDelivery.Domain
open MarineDelivery.Validation MarineDelivery.S3 MarineDelivery.OrderedDict
open MarineDelivery.Traced MarineDelivery.Processes MarineDelivery.WorkerPool
open MarineDelivery.Core MarineDelivery.Calls MarineDelivery.Manifest MarineDelivery.Protocol
open MarineDelivery.Progress MarineDelivery.Isolation MarineDelivery.Completion
open MarineDelivery.Termination

/-! ### Ends that are alike -/

/-- Both raise, where no order is asked for the same class of exception, or both return alike. -/
inductive Alike (raise : Bool) {α : Type} (same : α → α → Prop) :
    Except PyError α → Except PyError α → Prop
  | raised {e e' : PyError} (h : raise = false → exceptionClass e = exceptionClass e') :
    Alike raise same (.error e) (.error e')
  | returned {x y : α} (h : same x y) : Alike raise same (.ok x) (.ok y)

/-- The same response, the failed files in any order. -/
inductive SameResponse : OperationResponse → OperationResponse → Prop
  | delete (r : ResponseDelete) : SameResponse (.delete r) (.delete r)
  | upload (r : ResponseUpload) {failed : List ErrorFile} (h : r.filesFailed.Perm failed) :
    SameResponse (.upload r) (.upload { r with filesFailed := failed })

def SameTurn (x y : Operation × OperationResponse) : Prop :=
  x.1 = y.1 ∧ SameResponse x.2 y.2

/-- The same manifest, and the same responses one by one. -/
def SameCall (x y : List OperationResponse × Delivery) : Prop :=
  List.Forall₂ SameResponse x.1 y.1 ∧ x.2 = y.2

/-- The same operation, and the same response to it. -/
def SameResults (x y : PutFilesResult × UploadOperation) : Prop :=
  x.2 = y.2 ∧ ∀ did pid ds pe dry,
    SameResponse (.upload (ResponseUpload.create did pid ds pe dry x.1))
      (.upload (ResponseUpload.create did pid ds pe dry y.1))

lemma SameResponse.symm {r r' : OperationResponse} (h : SameResponse r r') :
    SameResponse r' r := by
  cases h with
  | delete r => exact .delete r
  | @upload r failed h => exact .upload { r with filesFailed := failed } h.symm

lemma SameResponse.trans {r r' r'' : OperationResponse} (h : SameResponse r r')
    (h' : SameResponse r' r'') : SameResponse r r'' := by
  cases h with
  | delete r => exact h'
  | @upload r failed h =>
      cases h' with
      | upload _ h' => exact .upload r (h.trans h')

lemma SameCall.symm {x y : List OperationResponse × Delivery} (h : SameCall x y) :
    SameCall y x :=
  ⟨(h.1.imp fun _ _ => SameResponse.symm).flip, h.2.symm⟩

lemma forall₂_sameResponse_trans {l l' l'' : List OperationResponse}
    (h : List.Forall₂ SameResponse l l') (h' : List.Forall₂ SameResponse l' l'') :
    List.Forall₂ SameResponse l l'' := by
  induction h generalizing l'' with
  | nil => exact h'
  | cons hr _ ih =>
      cases h' with
      | cons hr' h' => exact .cons (hr.trans hr') (ih h')

lemma SameCall.trans {x y z : List OperationResponse × Delivery} (h : SameCall x y)
    (h' : SameCall y z) : SameCall x z :=
  ⟨forall₂_sameResponse_trans h.1 h'.1, h.2.trans h'.2⟩

section

variable {raise : Bool} {α : Type} {same : α → α → Prop}

lemma Alike.exists_error {e : PyError} {r' : Except PyError α}
    (h : Alike raise same (.error e) r') :
    ∃ e', r' = .error e' ∧ (raise = false → exceptionClass e = exceptionClass e') := by
  cases h with
  | raised h => exact ⟨_, rfl, h⟩

lemma Alike.exists_ok {x : α} {r' : Except PyError α} (h : Alike raise same (.ok x) r') :
    ∃ y, r' = .ok y ∧ same x y := by
  cases h with
  | returned h => exact ⟨_, rfl, h⟩

lemma Alike.symm (hsymm : ∀ x y, same x y → same y x) {r r' : Except PyError α}
    (h : Alike raise same r r') : Alike raise same r' r := by
  cases h with
  | raised h => exact .raised fun hr => (h hr).symm
  | returned h => exact .returned (hsymm _ _ h)

lemma Alike.trans (htrans : ∀ x y z, same x y → same y z → same x z)
    {r r' r'' : Except PyError α} (h : Alike raise same r r') (h' : Alike raise same r' r'') :
    Alike raise same r r'' := by
  cases h with
  | raised h =>
      cases h' with
      | raised h' => exact .raised fun hr => (h hr).trans (h' hr)
  | returned h =>
      cases h' with
      | returned h' => exact .returned (htrans _ _ _ h h')

end

/-! ### One operation -/

variable {args : CallArgs} {session : Session} {times : ℕ → PosixPath → UploadTimes}
variable {n : ℕ} {keys : Dict PosixPath String} {pool : UploadPool}

/-- Results that agree give responses that are the same. -/
lemma sameResults_of_agree {x y : PutFilesResult × UploadOperation}
    (h : Agree (.ok x) (.ok y)) : SameResults x y := by
  cases h with
  | returned hoperation huploaded hfailed =>
      refine ⟨hoperation, fun did pid ds pe dry => ?_⟩
      have huploads := huploaded did pid ds pe dry
      have hperm := hfailed did pid ds pe dry
      simp only [ResponseUpload.create] at huploads hperm ⊢
      rw [huploads]
      exact .upload _ hperm

lemma alike_of_agree {raise : Bool} {r r' : Except PyError (PutFilesResult × UploadOperation)}
    (h : Agree r r') : Alike raise SameResults r r' := by
  cases h with
  | raised hclass => exact .raised fun _ => hclass
  | returned hoperation huploaded hfailed =>
      exact .returned (sameResults_of_agree (.returned hoperation huploaded hfailed))

/-- The loop over the futures of these items, in this order. -/
def collectedAs (raise dryRun : Bool) (run : PosixPath → FileRun)
    (call : PosixPath × String → ℕ → PutCall) (items : List (PosixPath × String)) :
    Except PyError PutFilesResult :=
  collectResults (items.map fun item =>
    (uploadFile (call item) (run item.1).toUploadTimes item.2 item.1 dryRun raise).result
      (run item.1).attempts) {}

/-- Whatever the order in which the futures are collected, the operation ends alike. -/
lemma alike_collectedAs {raise dryRun : Bool} {run : PosixPath → FileRun}
    {call : PosixPath × String → ℕ → PutCall} {completed : List (PosixPath × String)}
    (hc : completed.Perm keys.items) (op : ToUploadOperation) (ds : String) :
    Alike raise SameResults
      (collectedAs raise dryRun run call completed >>= concludeUploads op ds)
      (collectedAs raise dryRun run call keys.items >>= concludeUploads op ds) := by
  by_cases hall : ∀ item ∈ keys.items, Settles raise (verdict dryRun (run item.1))
  · have hcompleted : ∀ item ∈ completed, Settles raise (verdict dryRun (run item.1)) :=
      fun item hitem => hall item (hc.mem_iff.mp hitem)
    rw [collectedAs, collectedAs, collectResults_ok_iff.mpr ⟨hcompleted, rfl⟩,
      collectResults_ok_iff.mpr ⟨hall, rfl⟩]
    exact alike_of_agree (concludeUploads_agree hc (.refl _) op ds)
  · have hfails : ∀ items : List (PosixPath × String), items.Perm keys.items →
        ∃ e, collectedAs raise dryRun run call items = .error e := by
      intro items hperm
      cases hcollected : collectedAs raise dryRun run call items with
      | error e => exact ⟨e, rfl⟩
      | ok res =>
          have hsettles := (collectResults_ok_iff.mp hcollected).1
          exact absurd (fun item hitem => hsettles item (hperm.mem_iff.mpr hitem)) hall
    obtain ⟨e, he⟩ := hfails completed hc
    obtain ⟨e', he'⟩ := hfails keys.items (.refl _)
    rw [he, he']
    refine .raised fun hraise => ?_
    subst hraise
    exact (collected_error he).trans (collected_error he').symm

/-- The ends of the puts of an operation, as the oracle says. -/
def answeredRun (oracle : PutCall → PutAttempt) (args : CallArgs) (session : Session)
    (times : ℕ → PosixPath → UploadTimes) (n : ℕ) (keys : Dict PosixPath String)
    (path : PosixPath) : FileRun :=
  ⟨times n path, fun k => oracle (putCall session.s3Client n args.chunkSizeBytes
    (path, (keys.get? path).getD "") (1 + k))⟩

/-- The puts of a future whose answers are the oracle's, and how it ends. -/
lemma job_of_obeys {oracle : PutCall → PutAttempt} {item : PosixPath × String}
    (hitem : item ∈ keys.items) {answers : ℕ → PutAttempt}
    (h : ∀ x ∈ ((futures args session times n keys).job item).exchange answers,
      x.2 = oracle x.1) :
    ((futures args session times n keys).job item).exchange answers =
        ((futures args session times n keys).job item).exchange
          (answeredRun oracle args session times n keys item.1).attempts ∧
      ((futures args session times n keys).job item).result answers =
        ((futures args session times n keys).job item).result
          (answeredRun oracle args session times n keys item.1).attempts := by
  refine Process.eq_of_obeys h ?_
  have hkey : keys.get? item.1 = some item.2 := Dict.mem_items_iff.mp hitem
  by_cases hdry : args.dryRun = true
  · simp only [futures, uploadFile, hdry, if_true, Process.exchange]
    exact fun x hx => by cases hx
  · simp only [futures, uploadFile, if_neg hdry, Process.exchange_map, answeredRun, hkey,
      Option.getD_some]
    exact putFrom_obeys oracle (putCall session.s3Client n args.chunkSizeBytes item) _ 1

/-- **What is made of a pool** that has been left is what is made of its futures one by one. -/
theorem alike_concluded {oracle : PutCall → PutAttempt} (op : ToUploadOperation)
    (hpool : Sound (futures args session times n keys) pool)
    (hexit : Exited (futures args session times n keys) pool) (hobeys : Obeys oracle pool) :
    Alike args.raiseOnUploadError SameResults (concluded args op pool)
      (collectedAs args.raiseOnUploadError args.dryRun
          (answeredRun oracle args session times n keys)
          (putCall session.s3Client n args.chunkSizeBytes) keys.items >>=
        concludeUploads op args.datasetId) := by
  obtain ⟨answers, run, completed, hperm, hitems, hanswers, hresults⟩ :=
    exists_outcome hpool hexit
  have hcollected : collectResults (pool.collected.map Prod.snd) {} =
      collectedAs args.raiseOnUploadError args.dryRun
        (answeredRun oracle args session times n keys)
        (putCall session.s3Client n args.chunkSizeBytes) completed := by
    rw [← hresults, collectedAs]
    refine congrArg (fun l => collectResults l {}) (List.map_congr_left fun item hitem => ?_)
    have hmem := hperm.mem_iff.mp hitem
    rw [hitems item hmem]
    exact (job_of_obeys hmem fun x hx => hobeys x ((hanswers x).mpr ⟨item, hmem, hx⟩)).2
  rw [concluded, hcollected]
  exact alike_collectedAs hperm op args.datasetId

/-- **What has been done in a pool** that has been left is what its futures do one by one. -/
theorem mem_pool_trace_iff {oracle : PutCall → PutAttempt}
    (hpool : Sound (futures args session times n keys) pool)
    (hexit : Exited (futures args session times n keys) pool) (hobeys : Obeys oracle pool)
    (e : Event) :
    e ∈ pool.trace.map eventOf ↔ ∃ item ∈ keys.items,
      e ∈ putEvents (((futures args session times n keys).job item).exchange
        (answeredRun oracle args session times n keys item.1).attempts) := by
  obtain ⟨answers, -, -, -, -, hanswers, -⟩ := exists_outcome hpool hexit
  have hexchange : ∀ item ∈ keys.items,
      ((futures args session times n keys).job item).exchange (answers item) =
        ((futures args session times n keys).job item).exchange
          (answeredRun oracle args session times n keys item.1).attempts := fun item hitem =>
    (job_of_obeys hitem fun x hx => hobeys x ((hanswers x).mpr ⟨item, hitem, hx⟩)).1
  rw [mem_trace_iff hpool hexit hanswers]
  constructor
  · rintro ⟨item, hitem, he⟩
    exact ⟨item, hitem, hexchange item hitem ▸ he⟩
  · rintro ⟨item, hitem, he⟩
    exact ⟨item, hitem, hexchange item hitem ▸ he⟩

/-! ### The call written down in order -/

section

variable (oracle : PutCall → PutAttempt) (args : CallArgs) (session : Session)
variable (times : ℕ → PosixPath → UploadTimes) (pending : List PendingOperation)

/-- The mapping of operation `n`. -/
def keysAt (n : ℕ) : Dict PosixPath String :=
  match pending[n]? with
  | some (.upload operation) => ingestionKeys session.deliveryId args.productId args.datasetId
      operation.anchor (operation.files.map (·.localPath))
  | _ => .empty

/-- Uploads that end in the order of the mapping, every put as the oracle says. -/
def inOrder : Uploads where
  run n := answeredRun oracle args session times n (keysAt args session pending n)
  completed _ := id
  completed_perm _ _ := .refl _

end

variable {world : World} {oracle : PutCall → PutAttempt} {pending done todo : List PendingOperation}
variable {op : ToUploadOperation}

lemma run_inOrder (oracle : PutCall → PutAttempt) (times : ℕ → PosixPath → UploadTimes)
    (hp : pending[n]? = some (.upload op))
    (hkeys : getLocalPathS3KeysMapping (op.files.map (·.localPath)) session.deliveryId
      args.productId args.datasetId op.anchor = .ok keys) :
    (inOrder oracle args session times pending).run n =
      answeredRun oracle args session times n keys := by
  have hat : keysAt args session pending n = keys := by
    rw [keysAt, hp, (getLocalPathS3KeysMapping_ok_iff.mp hkeys).2]
  simp only [inOrder, hat]

/-- The turn of an upload, its files one by one. -/
lemma turn_inOrder (oracle : PutCall → PutAttempt) (times : ℕ → PosixPath → UploadTimes)
    (hp : pending[n]? = some (.upload op))
    (hkeys : getLocalPathS3KeysMapping (op.files.map (·.localPath)) session.deliveryId
      args.productId args.datasetId op.anchor = .ok keys)
    (hw : 0 < args.maxConcurrentUploads) :
    (turn args session (inOrder oracle args session times pending) n (.upload op)).result =
      (collectedAs args.raiseOnUploadError args.dryRun
          (answeredRun oracle args session times n keys)
          (putCall session.s3Client n args.chunkSizeBytes) keys.items >>=
        concludeUploads op args.datasetId) >>= fun x =>
      .ok (.upload x.2, .upload (ResponseUpload.create session.deliveryId args.productId
        args.datasetId session.pushingEntityId args.dryRun x.1)) := by
  rw [turn_upload, Comp.bind_result, putFilesToIngestionSystem, hkeys, Comp.lift_ok_bind,
    Comp.bind_result, uploadMultipleFiles_result hw (run_inOrder oracle times hp hkeys) rfl]
  rfl

lemma mem_turn_inOrder_events (oracle : PutCall → PutAttempt)
    (times : ℕ → PosixPath → UploadTimes) (hp : pending[n]? = some (.upload op))
    (hkeys : getLocalPathS3KeysMapping (op.files.map (·.localPath)) session.deliveryId
      args.productId args.datasetId op.anchor = .ok keys)
    (hw : 0 < args.maxConcurrentUploads) (e : Event) :
    e ∈ (turn args session (inOrder oracle args session times pending) n (.upload op)).events ↔
      ∃ item ∈ keys.items, e ∈ putEvents (((futures args session times n keys).job item).exchange
        (answeredRun oracle args session times n keys item.1).attempts) := by
  have hrun := run_inOrder oracle times hp hkeys
  rw [turn_upload, Comp.bind_pure_events, putFilesToIngestionSystem, hkeys, Comp.lift_ok_bind,
    Comp.bind_events_left fun _ => rfl]
  constructor
  · intro he
    obtain ⟨item, hitem, he⟩ := exists_of_mem_uploadMultipleFiles_events he
    exact ⟨item, hitem, by rwa [hrun] at he⟩
  · rintro ⟨item, hitem, he⟩
    refine mem_uploadMultipleFiles_events hw hitem ?_
    rwa [hrun]

/-- What has been done so far, or what the call has done and how it has ended, is what it is in
the call written down in order. -/
def Agrees (world : World) (oracle : PutCall → PutAttempt) (args : CallArgs) (session : Session)
    (times : ℕ → PosixPath → UploadTimes) (pending : List PendingOperation) (s : State) : Prop :=
  match s.main with
  | .ended result =>
    let call := runPending world (inOrder oracle args session times pending) args session pending
    Alike args.raiseOnUploadError SameCall result call.result ∧
      ∀ e, e ∈ s.events ↔ e ∈ call.events
  | _ => ∃ refs, LoopSoFar args session (inOrder oracle args session times pending)
        (pending.take s.processed.length) refs s.events ∧
      List.Forall₂ SameTurn s.processed refs

variable {s s' : State} {processed refs : List (Operation × OperationResponse)}
variable {events trace : List Event} {p : PendingOperation}

/-- One more turn, with the same result. -/
lemma agrees_concat {x y : Operation × OperationResponse} (hdone : done.length = processed.length)
    (hloop : LoopSoFar args session (inOrder oracle args session times (done ++ p :: todo))
      (done ++ [p]) (refs ++ [y]) events)
    (hsame : List.Forall₂ SameTurn processed refs) (hxy : SameTurn x y) :
    Agrees world oracle args session times (done ++ p :: todo)
      ⟨todo, processed ++ [x], .between, events⟩ := by
  refine ⟨refs ++ [y], ?_, List.rel_append hsame (.cons hxy .nil)⟩
  have htake : (done ++ p :: todo).take (processed ++ [x]).length = done ++ [p] := by
    have hlength : (processed ++ [x]).length = done.length + 1 := by
      rw [List.length_append, hdone]
      rfl
    rw [hlength, List.take_length_add_append]
    rfl
  rw [htake]
  exact hloop

/-- The call ends with the turn that fails. -/
lemma agrees_fail {e e' : PyError} {rest : List PendingOperation}
    (hloop : LoopSoFar args session (inOrder oracle args session times (done ++ p :: todo)) done
      refs events)
    (hturn : (turn args session (inOrder oracle args session times (done ++ p :: todo))
      refs.length p).result = .error e')
    (htrace : ∀ x, x ∈ trace ↔ x ∈ (turn args session
      (inOrder oracle args session times (done ++ p :: todo)) refs.length p).events)
    (hclass : args.raiseOnUploadError = false → exceptionClass e = exceptionClass e') :
    Agrees world oracle args session times (done ++ p :: todo)
      ⟨rest, processed, .ended (.error e), events ++ trace⟩ := by
  obtain ⟨hresult, hevents⟩ := hloop.fail world todo hturn htrace
  refine ⟨?_, hevents⟩
  rw [hresult]
  exact .raised hclass

/-- A turn that fails at once. -/
lemma agrees_fail_at_once {e : PyError} {rest : List PendingOperation}
    (hloop : LoopSoFar args session (inOrder oracle args session times (done ++ p :: todo)) done
      refs events)
    (hturn : turn args session (inOrder oracle args session times (done ++ p :: todo))
      refs.length p = Comp.throw e) :
    Agrees world oracle args session times (done ++ p :: todo)
      ⟨rest, processed, .ended (.error e), events⟩ := by
  have hempty : ∀ x, x ∈ ([] : List Event) ↔ x ∈ (turn args session
      (inOrder oracle args session times (done ++ p :: todo)) refs.length p).events := by
    rw [hturn]
    exact fun _ => Iff.rfl
  have hfail : Agrees world oracle args session times (done ++ p :: todo)
      ⟨rest, processed, .ended (.error e), events ++ []⟩ :=
    agrees_fail hloop (by rw [hturn, Comp.throw_result]) hempty fun _ => rfl
  rwa [List.append_nil] at hfail

lemma take_done (hdone : done.length = processed.length) :
    (done ++ todo).take processed.length = done := by
  rw [← hdone, List.take_left]

lemma Agrees.takeNext (hinv : Inv world args session times pending s)
    (h : Agrees world oracle args session times pending s)
    (hstep : takeNext args session s = some s') :
    Agrees world oracle args session times pending s' := by
  cases hinv with
  | uploading | failed | submitted => cases hstep
  | @between uploads done todo processed events hloop hpending =>
      subst hpending
      have hdone := hloop.length_eq
      obtain ⟨refs, hrefs, hsame⟩ := h
      rw [take_done hdone] at hrefs
      rcases todo with _ | ⟨op | op, todo⟩
      · cases hstep
      · cases hstep
        have hnone : ∀ x, x ∈ [] ↔ x ∈ (turn args session (inOrder oracle args session times
            (done ++ .delete op :: todo)) refs.length (.delete op)).events := fun _ => Iff.rfl
        have hnext := hrefs.concat rfl hnone .nil (by simp)
        rw [List.append_nil] at hnext
        exact agrees_concat hdone hnext hsame ⟨rfl, .delete _⟩
      · rw [Protocol.takeNext] at hstep
        cases hkeys : getLocalPathS3KeysMapping (op.files.map (·.localPath)) session.deliveryId
            args.productId args.datasetId op.anchor with
        | error e =>
            simp only [hkeys, Option.some.injEq] at hstep
            subst hstep
            exact agrees_fail_at_once hrefs (turn_upload_of_keys_error hkeys)
        | ok keys =>
            simp only [hkeys] at hstep
            split_ifs at hstep with hw
            · cases hstep
              exact agrees_fail_at_once hrefs (turn_upload_of_no_worker hkeys hw)
            · cases hstep
              exact ⟨refs, by rwa [take_done hdone], hsame⟩

lemma Agrees.closePool (hinv : Inv world args session times pending s)
    (hanswered : AnsweredBy oracle s) (h : Agrees world oracle args session times pending s)
    (hstep : closePool args session times s = some s') :
    Agrees world oracle args session times pending s' := by
  cases hinv with
  | between | failed | submitted => cases hstep
  | @uploading uploads done todo processed events op keys pool hloop hpending hkeys hw hpool =>
      subst hpending
      have hdone := hloop.length_eq
      obtain ⟨refs, hrefs, hsame⟩ := h
      rw [take_done hdone] at hrefs
      simp only [Protocol.closePool] at hstep
      split_ifs at hstep with hexit
      have hp : (done ++ .upload op :: todo)[processed.length]? = some (.upload op) := by
        rw [← hdone, List.getElem?_append_right (le_refl _), Nat.sub_self]
        rfl
      have hobeys := (answeredBy_uploading.mp hanswered).2
      have halike := alike_concluded op hpool hexit hobeys
      have hturn := turn_inOrder oracle times hp hkeys hw
      have hevents : ∀ e, e ∈ pool.trace.map eventOf ↔
          e ∈ (turn args session (inOrder oracle args session times
            (done ++ .upload op :: todo)) processed.length (.upload op)).events := fun e =>
        (mem_pool_trace_iff hpool hexit hobeys e).trans
          (mem_turn_inOrder_events oracle times hp hkeys hw e).symm
      rw [hsame.length_eq] at hturn hevents halike
      cases hconcluded : concluded args op pool with
      | error e =>
          simp only [hconcluded, Option.some.injEq] at hstep
          subst hstep
          rw [hconcluded] at halike
          obtain ⟨e', he', hclass⟩ := halike.exists_error
          exact agrees_fail hrefs (by rw [hturn, he']; rfl) hevents hclass
      | ok x =>
          simp only [hconcluded, Option.some.injEq] at hstep
          subst hstep
          rw [hconcluded] at halike
          obtain ⟨y, hy, hoperation, hresponse⟩ := halike.exists_ok
          have hbalanced : (startedCalls (pool.trace.map eventOf)).Perm
              ((endedCalls (pool.trace.map eventOf)).map Prod.fst) := by
            rw [startedCalls_map_eventOf, endedCalls_map_eventOf]
            exact hpool.answered_of_exited hexit
          have hnext := hrefs.concat (by rw [hturn, hy]; rfl) hevents hbalanced
            (posted_notMem_map_eventOf _)
          exact agrees_concat hdone hnext hsame
            ⟨congrArg Operation.upload hoperation, hresponse _ _ _ _ _⟩

/-- The deliveries of two loops that are the same. -/
lemma map_fst_of_sameTurn {refs : List (Operation × OperationResponse)}
    (h : List.Forall₂ SameTurn processed refs) :
    processed.map Prod.fst = refs.map Prod.fst := by
  induction h with
  | nil => rfl
  | cons hx _ ih => rw [List.map_cons, List.map_cons, hx.1, ih]

lemma map_snd_of_sameTurn {refs : List (Operation × OperationResponse)}
    (h : List.Forall₂ SameTurn processed refs) :
    List.Forall₂ SameResponse (processed.map Prod.snd) (refs.map Prod.snd) := by
  induction h with
  | nil => exact .nil
  | cons hx _ ih => exact .cons hx.2 ih

lemma Agrees.submitDelivery (hinv : Inv world args session times pending s)
    (h : Agrees world oracle args session times pending s)
    (hstep : submitDelivery world args session s = some s') :
    Agrees world oracle args session times pending s' := by
  cases hinv with
  | uploading | failed | submitted => cases hstep
  | @between uploads done todo processed events hloop hpending =>
      cases todo with
      | cons p todo => cases hstep
      | nil =>
          rw [List.append_nil] at hpending
          subst hpending
          cases hstep
          obtain ⟨refs, hrefs, hsame⟩ := h
          simp only [← hloop.length_eq, List.take_length] at hrefs
          rw [Agrees, hrefs.runPending_eq world, map_fst_of_sameTurn hsame]
          refine ⟨?_, fun e => ?_⟩
          · cases (submit world args session.config
              (deliveryOf args session (refs.map Prod.fst))).result with
            | error e => exact .raised fun _ => rfl
            | ok _ => exact .returned ⟨map_snd_of_sameTurn hsame, rfl⟩
          · rw [List.mem_append, List.mem_append, hrefs.mem_events]

lemma Agrees.step (hinv : Inv world args session times pending s)
    (hanswered : AnsweredBy oracle s) (h : Agrees world oracle args session times pending s)
    {label : Label} (hstep : step world args session times s label = some s') :
    Agrees world oracle args session times pending s' := by
  cases label with
  | next => exact h.takeNext hinv hstep
  | close => exact h.closePool hinv hanswered hstep
  | submit => exact h.submitDelivery hinv hstep
  | worker label =>
      cases hinv with
      | between | failed | submitted => cases hstep
      | uploading =>
          obtain ⟨pool', -, rfl⟩ := Option.map_eq_some_iff.mp hstep
          exact h

/-! ### The trace only grows -/

lemma mem_trace_of_pool_step {setup : UploadSetup} {pool' : UploadPool}
    {label : WorkerPool.Label (PosixPath × String) PutAttempt}
    (h : WorkerPool.step setup pool label = some pool') {e : Event}
    (he : e ∈ pool.trace.map eventOf) : e ∈ pool'.trace.map eventOf := by
  cases step_stepped h with
  | start | collect => exact he
  | ask | answer =>
      rw [List.map_append]
      exact List.mem_append_left _ he

lemma mem_trace_of_step {label : Label} (h : step world args session times s label = some s')
    {e : Event} (he : e ∈ s.trace) : e ∈ s'.trace := by
  obtain ⟨todo, processed, main, events⟩ := s
  cases label with
  | next =>
      cases main with
      | uploading op keys pool | ended result => cases h
      | between =>
          rcases todo with _ | ⟨op | op, todo⟩
          · cases h
          · cases h
            exact he
          · simp only [Protocol.step, Protocol.takeNext] at h
            split at h
            · cases h
              exact he
            · split_ifs at h
              · cases h
                exact he
              · cases h
                exact List.mem_append_left _ he
  | worker label =>
      cases main with
      | between | ended result => cases h
      | uploading op keys pool =>
          obtain ⟨pool', hpool, rfl⟩ := Option.map_eq_some_iff.mp h
          rcases List.mem_append.mp he with he | he
          · exact List.mem_append_left _ he
          · exact List.mem_append_right _ (mem_trace_of_pool_step hpool he)
  | close =>
      cases main with
      | between | ended result => cases h
      | uploading op keys pool =>
          simp only [Protocol.step, Protocol.closePool] at h
          split_ifs at h
          split at h
          · cases h
            exact he
          · cases h
            exact he
  | submit =>
      cases main with
      | uploading op keys pool | ended result => cases h
      | between =>
          cases todo with
          | cons p todo => cases h
          | nil =>
              cases h
              exact List.mem_append_left _ he

/-- **Every state that can be reached** agrees with the call written down in order, if its puts
have been answered as the oracle says. -/
theorem agrees_of_run {labels : List Label}
    (h : run (Protocol.step world args session times) { todo := pending } labels = some s)
    (hanswered : AnsweredBy oracle s) :
    Agrees world oracle args session times pending s := by
  have hkeep : ∀ s a s', Inv world args session times pending s ∧
        (AnsweredBy oracle s → Agrees world oracle args session times pending s) →
      Protocol.step world args session times s a = some s' →
      Inv world args session times pending s' ∧
        (AnsweredBy oracle s' → Agrees world oracle args session times pending s') := by
    intro s a s' hs hstep
    refine ⟨hs.1.step hstep, fun hanswered => ?_⟩
    have hbefore : AnsweredBy oracle s := fun q a hq => hanswered q a (mem_trace_of_step hstep hq)
    exact (hs.2 hbefore).step hs.1 hbefore hstep
  have hinit : Agrees world oracle args session times pending { todo := pending } :=
    ⟨[], ⟨rfl, fun _ => Iff.rfl, .nil, by simp⟩, .nil⟩
  exact (run_invariant _ hkeep ⟨inv_initial pending, fun _ => hinit⟩ h).2 hanswered

/-! ### Calls -/

/-- **The interleaving does not show.** Two runs of a call whose puts are answered alike have
started and ended the same puts and POSTed the same delivery or none, and they end alike: both
raise, or both return the same manifest and the same responses up to the order of failed files.
Unless a file that fails ends the call, they raise the same class of exception. -/
theorem interleavings_agree {request : Request} {labels labels' : List Label} {s s' : State}
    {result result' : Except PyError (List OperationResponse × Delivery)}
    (h : Reaches world args times request labels s)
    (h' : Reaches world args times request labels' s')
    (hanswered : AnsweredBy oracle s) (hanswered' : AnsweredBy oracle s')
    (hended : s.main = .ended result) (hended' : s'.main = .ended result') :
    Alike args.raiseOnUploadError SameCall result result' ∧ s.trace.Perm s'.trace := by
  have hnodup := (Puts.nodup_marks h).of_map
  have hnodup' := (Puts.nodup_marks h').of_map
  obtain ⟨session, pending, hprep, hrun⟩ := h
  obtain ⟨session', pending', hprep', hrun'⟩ := h'
  rw [hprep] at hprep'
  cases hprep'
  have hagrees := agrees_of_run hrun hanswered
  have hagrees' := agrees_of_run hrun' hanswered'
  obtain ⟨todo, processed, main, events⟩ := s
  obtain ⟨todo', processed', main', events'⟩ := s'
  cases hended
  cases hended'
  obtain ⟨halike, hevents⟩ := hagrees
  obtain ⟨halike', hevents'⟩ := hagrees'
  have htrans : ∀ x y z, SameCall x y → SameCall y z → SameCall x z := fun _ _ _ => SameCall.trans
  have hsymm : ∀ x y, SameCall x y → SameCall y x := fun _ _ => SameCall.symm
  refine ⟨halike.trans htrans (halike'.symm hsymm), ?_⟩
  exact (List.perm_ext_iff_of_nodup hnodup hnodup').mpr fun e =>
    (hevents e).trans (hevents' e).symm

/-! ### Two files, in two interleavings -/

def pairPending : List PendingOperation :=
  [.upload ⟨["a.nc", "b.nc"].map
    (fileToUpload (exampleWorld [("a.nc", 10), ("b.nc", 20)]).fileSystem), none⟩]

def firstItem : PosixPath × String :=
  (PosixPath.ofString "a.nc", "data/20250102T030405-prod-1234/prod/dset/a.nc")

def secondItem : PosixPath × String :=
  (PosixPath.ofString "b.nc", "data/20250102T030405-prod-1234/prod/dset/b.nc")

def oneByOne : List Label :=
  .next :: putOnce firstItem "t1" ++ putOnce secondItem "t1" ++ [.close, .submit]

def sideBySide : List Label :=
  [.next, .worker (.start firstItem), .worker (.start secondItem), .worker (.ask secondItem),
    .worker (.ask firstItem), .worker (.answer secondItem (.success (some "t1"))),
    .worker (.collect secondItem), .worker (.answer firstItem (.success (some "t1"))),
    .worker (.collect firstItem), .close, .submit]

def hasEnded (s : State) : Bool :=
  match s.main with
  | .ended _ => true
  | _ => false

/-- Both runs come to an end, every put being answered with the same `e_tag`. -/
lemma exists_ended_pair (labels : List Label)
    (h : ((run (Protocol.step (exampleWorld [("a.nc", 10), ("b.nc", 20)]) exampleArgs
        (exampleSession [("a.nc", 10), ("b.nc", 20)]) exampleTimes) { todo := pairPending }
        labels).map fun s => hasEnded s && (endedCalls s.trace).all fun x =>
          x.2 = .success (some "t1")) = some true) :
    ∃ (s : State) (result : Except PyError (List OperationResponse × Delivery)),
      Reaches (exampleWorld [("a.nc", 10), ("b.nc", 20)]) exampleArgs exampleTimes
        (.upload ["a.nc", "b.nc"] none) labels s ∧
      AnsweredBy (fun _ => .success (some "t1")) s ∧ s.main = .ended result := by
  have hprep : (Request.upload ["a.nc", "b.nc"] none).prepare
      (exampleWorld [("a.nc", 10), ("b.nc", 20)]) exampleArgs =
        .ok (exampleSession [("a.nc", 10), ("b.nc", 20)], pairPending) := by
    decide +kernel
  obtain ⟨s, hs, hboth⟩ := Option.map_eq_some_iff.mp h
  obtain ⟨hended, hall⟩ := (Bool.and_eq_true _ _).mp hboth
  have hanswered : AnsweredBy (fun _ => .success (some "t1")) s := fun q a hq =>
    of_decide_eq_true (List.all_eq_true.mp hall (q, a) (mem_endedCalls.mpr hq))
  cases hmain : s.main with
  | between | uploading op keys pool =>
      rw [hasEnded, hmain] at hended
      cases hended
  | ended result => exact ⟨s, result, ⟨_, _, hprep, hs⟩, hanswered, hmain⟩

theorem interleavings_agree_pair : ∃ s s' result result',
    Reaches (exampleWorld [("a.nc", 10), ("b.nc", 20)]) exampleArgs exampleTimes
      (.upload ["a.nc", "b.nc"] none) oneByOne s ∧ s.main = .ended result ∧
    Reaches (exampleWorld [("a.nc", 10), ("b.nc", 20)]) exampleArgs exampleTimes
      (.upload ["a.nc", "b.nc"] none) sideBySide s' ∧ s'.main = .ended result' ∧
    Alike exampleArgs.raiseOnUploadError SameCall result result' ∧ s.trace.Perm s'.trace := by
  obtain ⟨s, result, hreaches, hanswered, hended⟩ :=
    exists_ended_pair oneByOne (by decide +kernel)
  obtain ⟨s', result', hreaches', hanswered', hended'⟩ :=
    exists_ended_pair sideBySide (by decide +kernel)
  exact ⟨s, s', result, result', hreaches, hended, hreaches', hended',
    interleavings_agree hreaches hreaches' hanswered hanswered' hended hended'⟩

end MarineDelivery.Confluence
