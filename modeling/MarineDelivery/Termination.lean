import MarineDelivery.Isolation
import MarineDelivery.Puts

/-!
Calls come to an end.

Every step of a call is counted against what its operations can still cost, so that no run is
longer than the files that were asked for allow. A call that has not ended can always go on,
whatever the object store answers; so a run that cannot is a run that has ended.
-/

namespace MarineDelivery.Termination

open MarineDelivery.PathLib MarineDelivery.PathLib.PosixPath MarineDelivery.Errors
open MarineDelivery.Common MarineDelivery.Domain MarineDelivery.Validation MarineDelivery.S3
open MarineDelivery.OrderedDict MarineDelivery.Traced MarineDelivery.Processes
open MarineDelivery.WorkerPool MarineDelivery.Core MarineDelivery.Calls MarineDelivery.Manifest
open MarineDelivery.Protocol MarineDelivery.Progress MarineDelivery.Isolation

/-! ### What an operation costs -/

/-- The steps the upload of `files` files can take: the turn begins, every file is taken, put
three times at most and collected, and the pool is left. -/
def uploadSteps (files : ℕ) : ℕ := files * (2 * osErrorRetries + 3) + 2

def requestedSteps : RequestedOperation → ℕ
  | .upload operation => uploadSteps operation.files.length
  | .delete _ => 1

def pendingSteps : PendingOperation → ℕ
  | .upload operation => uploadSteps operation.files.length
  | .delete _ => 1

/-- The steps a call can take, its submission included. -/
def callSteps (request : Request) : ℕ :=
  (request.operations.map requestedSteps).sum + 1

variable (args : CallArgs) (session : Session) (times : ℕ → PosixPath → UploadTimes)

/-- The steps that can still come. -/
def remaining (s : State) : ℕ :=
  match s.main with
  | .between => (s.todo.map pendingSteps).sum + 1
  | .uploading _ keys pool =>
    (s.todo.map pendingSteps).sum + 2 +
      (keys.items.length * (2 * osErrorRetries + 3) -
        steps (futures args session times s.processed.length keys) pool)
  | .ended _ => 0

variable {args session times} {world : World} {pending : List PendingOperation} {s s' : State}
variable {n : ℕ} {keys : Dict PosixPath String} {pool pool' : UploadPool}

lemma length_items_ofList_le (l : List (PosixPath × String)) :
    (Dict.ofList l).items.length ≤ l.length := by
  have hsub : (Dict.ofList l).keys ⊆ l.map Prod.fst := fun k hk => Dict.mem_keys_ofList.mp hk
  have hlength := (List.subperm_of_subset (Dict.nodup_keys _) hsub).length_le
  rwa [List.length_map, Dict.keys, List.length_map] at hlength

/-- No operation has more keys than files. -/
lemma length_keys_le {op : ToUploadOperation} (hkeys : getLocalPathS3KeysMapping
      (op.files.map (·.localPath)) session.deliveryId args.productId args.datasetId op.anchor =
        .ok keys) :
    keys.items.length ≤ op.files.length := by
  obtain ⟨-, rfl⟩ := getLocalPathS3KeysMapping_ok_iff.mp hkeys
  have hlength := length_items_ofList_le ((op.files.map (·.localPath)).map fun f =>
    (ofString f, ingestionKey session.deliveryId args.productId args.datasetId op.anchor f))
  rwa [List.length_map, List.length_map] at hlength

lemma steps_futures_le (hpool : Sound (futures args session times n keys) pool) :
    steps (futures args session times n keys) pool ≤
      keys.items.length * (2 * osErrorRetries + 3) :=
  steps_le (fun _ _ => asksAtMost_uploadFile _ _ _ _ _ _) hpool

/-! ### Every step costs something -/

lemma remaining_takeNext (hinv : Inv world args session times pending s)
    (h : takeNext args session s = some s') :
    remaining args session times s' < remaining args session times s := by
  cases hinv with
  | uploading | failed | submitted => cases h
  | @between uploads done todo processed events hloop hpending =>
      rcases todo with _ | ⟨op | op, todo⟩
      · cases h
      · cases h
        simp only [remaining, List.map_cons, List.sum_cons, pendingSteps]
        omega
      · rw [takeNext] at h
        cases hkeys : getLocalPathS3KeysMapping (op.files.map (·.localPath)) session.deliveryId
            args.productId args.datasetId op.anchor with
        | error e =>
            simp only [hkeys, Option.some.injEq] at h
            subst h
            exact Nat.succ_pos _
        | ok keys =>
            simp only [hkeys] at h
            split_ifs at h with hw
            · cases h
              exact Nat.succ_pos _
            · cases h
              have hlength : keys.items.length * (2 * osErrorRetries + 3) ≤
                  op.files.length * (2 * osErrorRetries + 3) :=
                Nat.mul_le_mul_right _ (length_keys_le hkeys)
              simp only [remaining, List.map_cons, List.sum_cons, pendingSteps,
                uploadSteps]
              omega

lemma remaining_workerStep (hinv : Inv world args session times pending s)
    {label : WorkerPool.Label (PosixPath × String) PutAttempt}
    (h : workerStep args session times s label = some s') :
    remaining args session times s' < remaining args session times s := by
  cases hinv with
  | between | failed | submitted => cases h
  | uploading hloop hpending hkeys hw hpool =>
      obtain ⟨pool', hstep, rfl⟩ := Option.map_eq_some_iff.mp h
      have hcount := steps_step hpool hstep
      have hbound := steps_futures_le (hpool.step hstep)
      simp only [remaining]
      omega

lemma remaining_closePool (h : closePool args session times s = some s') :
    remaining args session times s' < remaining args session times s := by
  obtain ⟨todo, processed, main, events⟩ := s
  cases main with
  | between | ended result => cases h
  | uploading op keys pool =>
      simp only [closePool] at h
      split_ifs at h with hexit
      cases hconcluded : concluded args op pool with
      | error e =>
          simp only [hconcluded, Option.some.injEq] at h
          subst h
          simp only [remaining]
          omega
      | ok x =>
          simp only [hconcluded, Option.some.injEq] at h
          subst h
          simp only [remaining]
          omega

lemma remaining_submitDelivery (h : submitDelivery world args session s = some s') :
    remaining args session times s' < remaining args session times s := by
  obtain ⟨todo, processed, main, events⟩ := s
  cases main with
  | uploading op keys pool | ended result => cases h
  | between =>
      cases todo with
      | nil =>
          cases h
          exact Nat.succ_pos _
      | cons p todo => cases h

/-- **Every step costs** at least one of the steps that could still come. -/
theorem remaining_step (hinv : Inv world args session times pending s) {label : Label}
    (h : step world args session times s label = some s') :
    remaining args session times s' < remaining args session times s := by
  cases label with
  | next => exact remaining_takeNext hinv h
  | worker label => exact remaining_workerStep hinv h
  | close => exact remaining_closePool h
  | submit => exact remaining_submitDelivery h

lemma length_add_remaining_le (hinv : Inv world args session times pending s)
    {labels : List Label} (h : run (step world args session times) s labels = some s') :
    labels.length + remaining args session times s' ≤ remaining args session times s := by
  induction labels generalizing s with
  | nil =>
      cases h
      exact (Nat.zero_add _).le
  | cons label labels ih =>
      obtain ⟨s₁, hstep, h⟩ := Option.bind_eq_some_iff.mp h
      have hfirst := remaining_step hinv hstep
      have hrest := ih (hinv.step hstep) h
      rw [List.length_cons]
      omega

/-- A requested operation costs what the accepted one costs. -/
lemma steps_validateOperation {fs : FileSystem} {op : RequestedOperation} {p : PendingOperation}
    (h : validateOperation fs args op = .ok p) :
    pendingSteps p = requestedSteps op := by
  cases op with
  | delete operation =>
      obtain ⟨_, -, he⟩ := bind_eq_ok.mp h
      cases he
      rfl
  | upload operation =>
      obtain ⟨op', hop, he⟩ := bind_eq_ok.mp h
      cases he
      obtain ⟨-, -, -, hfiles⟩ := createAndValidateToUploadOperation_ok_iff.mp hop
      rw [pendingSteps, requestedSteps, hfiles, List.length_map]

lemma map_pendingSteps {fs : FileSystem} {operations : List RequestedOperation}
    (h : List.Forall₂ (fun op p => validateOperation fs args op = .ok p) operations pending) :
    pending.map pendingSteps = operations.map requestedSteps := by
  induction h with
  | nil => rfl
  | cons hv _ ih => rw [List.map_cons, List.map_cons, steps_validateOperation hv, ih]

lemma remaining_initial {request : Request}
    (hprep : request.prepare world args = .ok (session, pending)) :
    remaining args session times { todo := pending } = callSteps request := by
  rw [remaining, callSteps, map_pendingSteps (prepare_ok hprep).2]

/-! ### No call is stuck -/

/-- Every put has ended as the oracle says. -/
def AnsweredBy (oracle : PutCall → PutAttempt) (s : State) : Prop :=
  ∀ q a, Event.ended q a ∈ s.trace → a = oracle q

lemma answeredBy_uploading {oracle : PutCall → PutAttempt} {todo : List PendingOperation}
    {processed : List (Operation × OperationResponse)} {op : ToUploadOperation}
    {events : List Event} :
    AnsweredBy oracle ⟨todo, processed, .uploading op keys pool, events⟩ ↔
      (∀ q a, Event.ended q a ∈ events → a = oracle q) ∧ Obeys oracle pool := by
  have hpool : ∀ q a, Event.ended q a ∈ pool.trace.map eventOf ↔
      (q, a) ∈ pool.trace.filterMap Move.answered? := by
    intro q a
    rw [← mem_endedCalls, endedCalls_map_eventOf]
  simp only [AnsweredBy, State.trace, List.mem_append, hpool]
  constructor
  · intro h
    exact ⟨fun q a hq => h q a (.inl hq), fun x hx => h x.1 x.2 (.inr hx)⟩
  · rintro ⟨hevents, hobeys⟩ q a (h | h)
    · exact hevents q a h
    · exact hobeys (q, a) h

/-- The pool of a call takes a step. -/
lemma exists_step_uploading {oracle : PutCall → PutAttempt} {todo : List PendingOperation}
    {processed : List (Operation × OperationResponse)} {op : ToUploadOperation}
    {events : List Event} (hw : 0 < args.maxConcurrentUploads)
    (hexit : ¬ Exited (futures args session times processed.length keys) pool)
    (hanswered : AnsweredBy oracle ⟨todo, processed, .uploading op keys pool, events⟩) :
    ∃ label s', step world args session times ⟨todo, processed, .uploading op keys pool, events⟩
      label = some s' ∧ AnsweredBy oracle s' := by
  have hworkers : 0 < (futures args session times processed.length keys).workers :=
    Int.lt_toNat.mpr hw
  obtain ⟨label, pool', hstep, hobeys⟩ := exists_step hworkers hexit oracle
  obtain ⟨hevents, hpool⟩ := answeredBy_uploading.mp hanswered
  refine ⟨.worker label, ⟨todo, processed, .uploading op keys pool', events⟩, ?_,
    answeredBy_uploading.mpr ⟨hevents, hobeys hpool⟩⟩
  simp only [Protocol.step, workerStep, hstep, Option.map_some]

/-- The pool of a call is left. -/
lemma exists_step_exited {oracle : PutCall → PutAttempt} {todo : List PendingOperation}
    {processed : List (Operation × OperationResponse)} {op : ToUploadOperation}
    {events : List Event}
    (hexit : Exited (futures args session times processed.length keys) pool)
    (hanswered : AnsweredBy oracle ⟨todo, processed, .uploading op keys pool, events⟩) :
    ∃ label s', step world args session times ⟨todo, processed, .uploading op keys pool, events⟩
      label = some s' ∧ AnsweredBy oracle s' := by
  refine ⟨.close, ?_⟩
  simp only [Protocol.step, closePool, if_pos hexit]
  cases hconcluded : concluded args op pool with
  | error e => exact ⟨_, rfl, hanswered⟩
  | ok x => exact ⟨_, rfl, hanswered⟩

lemma answeredBy_takeNext {oracle : PutCall → PutAttempt} {p : PendingOperation}
    {todo : List PendingOperation} {processed : List (Operation × OperationResponse)}
    {events : List Event}
    (hanswered : AnsweredBy oracle ⟨p :: todo, processed, .between, events⟩) :
    ∃ s', takeNext args session ⟨p :: todo, processed, .between, events⟩ = some s' ∧
      AnsweredBy oracle s' := by
  cases p with
  | delete op => exact ⟨_, rfl, hanswered⟩
  | upload op =>
      cases hkeys : getLocalPathS3KeysMapping (op.files.map (·.localPath)) session.deliveryId
          args.productId args.datasetId op.anchor with
      | error e =>
          simp only [takeNext, hkeys]
          exact ⟨_, rfl, hanswered⟩
      | ok keys =>
          simp only [takeNext, hkeys]
          split_ifs
          · exact ⟨_, rfl, hanswered⟩
          · exact ⟨_, rfl, answeredBy_uploading.mpr ⟨hanswered, obeys_initial oracle⟩⟩

/-- **No call is stuck** before it has ended. -/
theorem exists_step_of_not_ended (hinv : Inv world args session times pending s)
    (hended : ∀ result, s.main ≠ .ended result) {oracle : PutCall → PutAttempt}
    (hanswered : AnsweredBy oracle s) :
    ∃ label s', step world args session times s label = some s' ∧ AnsweredBy oracle s' := by
  cases hinv with
  | failed | submitted => exact absurd rfl (hended _)
  | @between uploads done todo processed events hloop hpending =>
      cases todo with
      | cons p todo =>
          obtain ⟨s', hnext, hanswered'⟩ := answeredBy_takeNext hanswered
          exact ⟨.next, s', hnext, hanswered'⟩
      | nil =>
          refine ⟨.submit, _, rfl, fun q a hq => ?_⟩
          rcases List.mem_append.mp hq with hq | hq
          · exact hanswered q a hq
          · cases eq_posted_of_mem_submit _ _ hq
  | @uploading uploads done todo processed events op keys pool hloop hpending hkeys hw hpool =>
      by_cases hexit : Exited (futures args session times processed.length keys) pool
      · exact exists_step_exited hexit hanswered
      · exact exists_step_uploading hw hexit hanswered

/-- From a state of a call, an end can be reached. -/
lemma exists_ended {oracle : PutCall → PutAttempt}
    (hinv : Inv world args session times pending s) (hanswered : AnsweredBy oracle s) :
    ∃ more s' result, run (step world args session times) s more = some s' ∧
      AnsweredBy oracle s' ∧ s'.main = .ended result := by
  induction hn : remaining args session times s using Nat.strong_induction_on generalizing s with
  | _ n ih =>
      by_cases hended : ∃ result, s.main = .ended result
      · obtain ⟨result, hresult⟩ := hended
        exact ⟨[], s, result, rfl, hanswered, hresult⟩
      · obtain ⟨label, s₁, hstep, hanswered₁⟩ :=
          exists_step_of_not_ended hinv (not_exists.mp hended) hanswered
        have hless := remaining_step hinv hstep
        obtain ⟨more, s', result, hrun, hend⟩ :=
          ih _ (hn ▸ hless) (hinv.step hstep) hanswered₁ rfl
        refine ⟨label :: more, s', result, ?_, hend⟩
        rw [run, hstep]
        exact hrun

lemma step_of_ended {label : Label} {result : Except PyError (List OperationResponse × Delivery)}
    (h : s.main = .ended result) : step world args session times s label = none := by
  obtain ⟨todo, processed, main, events⟩ := s
  cases h
  cases label <;> rfl

/-! ### Calls -/

variable {request : Request} {labels more : List Label}

/-- A run goes on from the state it has reached. -/
lemma reaches_append_iff (hprep : request.prepare world args = .ok (session, pending))
    (hrun : run (step world args session times) { todo := pending } labels = some s) :
    Reaches world args times request (labels ++ more) s' ↔
      run (step world args session times) s more = some s' := by
  constructor
  · rintro ⟨session', pending', hprep', hrun'⟩
    rw [hprep] at hprep'
    cases hprep'
    rwa [run_append, hrun] at hrun'
  · intro hmore
    refine ⟨session, pending, hprep, ?_⟩
    rw [run_append, hrun]
    exact hmore

/-- An object store that has answered as this one has. -/
lemma exists_answeredBy (h : Reaches world args times request labels s) :
    ∃ oracle, AnsweredBy oracle s := by
  have hone : ∀ q, ∃ a, ∀ a', Event.ended q a' ∈ s.trace → a' = a := by
    intro q
    by_cases hq : ∃ a, Event.ended q a ∈ s.trace
    · obtain ⟨a, ha⟩ := hq
      exact ⟨a, fun a' ha' => Puts.outcome_unique h ha' ha⟩
    · exact ⟨default, fun a' ha' => absurd ⟨a', ha'⟩ hq⟩
  choose oracle hanswered using hone
  exact ⟨oracle, hanswered⟩

/-- **Every call ends.** No run of a call is longer than its files allow; a state that can be
reached can be left exactly when the call has not ended; and from each an end can be reached,
however the object store goes on answering. -/
theorem calls_end (h : Reaches world args times request labels s) :
    labels.length ≤ callSteps request ∧
    ((∃ label s', Reaches world args times request (labels ++ [label]) s') ↔
      ∀ result, s.main ≠ .ended result) ∧
    (∃ oracle, AnsweredBy oracle s) ∧
    ∀ oracle, AnsweredBy oracle s →
      ∃ more s' result, Reaches world args times request (labels ++ more) s' ∧
        AnsweredBy oracle s' ∧ s'.main = .ended result := by
  obtain ⟨oracle, hanswered⟩ := exists_answeredBy h
  obtain ⟨session, pending, hprep, hrun⟩ := h
  have hinv := inv_of_run hrun
  have hcount := length_add_remaining_le (inv_initial pending) hrun
  rw [remaining_initial hprep] at hcount
  refine ⟨by omega, ⟨?_, fun hended => ?_⟩, ⟨oracle, hanswered⟩, fun oracle' hanswered' => ?_⟩
  · rintro ⟨label, s', hmore⟩ result hresult
    have hstep := (reaches_append_iff hprep hrun).mp hmore
    rw [run, step_of_ended hresult] at hstep
    cases hstep
  · obtain ⟨label, s', hstep, -⟩ := exists_step_of_not_ended hinv hended hanswered
    refine ⟨label, s', (reaches_append_iff hprep hrun).mpr ?_⟩
    rw [run, hstep]
    rfl
  · obtain ⟨more, s', result, hmore, hend⟩ := exists_ended hinv hanswered'
    exact ⟨more, s', result, (reaches_append_iff hprep hrun).mpr hmore, hend⟩

/-- A file that is being put again, after an attempt that ended with an `OSError`. -/
theorem calls_end_again : ∃ s : State, (startedCalls s.trace).length = 2 ∧
    (endedCalls s.trace).length = 1 ∧
    Puts.puttingAgain.length ≤ callSteps (.upload ["a.nc"] none) ∧
    ((∃ label s', Reaches (exampleWorld [("a.nc", 10)]) exampleArgs exampleTimes
        (.upload ["a.nc"] none) (Puts.puttingAgain ++ [label]) s') ↔
      ∀ result, s.main ≠ .ended result) ∧
    (∃ oracle, AnsweredBy oracle s) ∧
    ∀ oracle, AnsweredBy oracle s →
      ∃ more s' result, Reaches (exampleWorld [("a.nc", 10)]) exampleArgs exampleTimes
          (.upload ["a.nc"] none) (Puts.puttingAgain ++ more) s' ∧
        AnsweredBy oracle s' ∧ s'.main = .ended result := by
  obtain ⟨s, hstarted, hended, hreaches⟩ := Puts.exists_puttingAgain
  exact ⟨s, hstarted, hended, calls_end hreaches⟩

end MarineDelivery.Termination
