import MarineDelivery.Progress
import MarineDelivery.Protocol

/-!
Files that fail, and the others.

Without `raise_on_error` a file that fails is meant to be skipped. Its reason is read off the
text of the exception, and an exception without text has none: then the upload of the file
raises and takes the whole operation down, in every interleaving. Nothing else does.
-/

namespace MarineDelivery.Isolation

open MarineDelivery.PathLib MarineDelivery.PathLib.PosixPath MarineDelivery.Errors
open MarineDelivery.Domain MarineDelivery.S3
open MarineDelivery.OrderedDict MarineDelivery.Processes MarineDelivery.WorkerPool
open MarineDelivery.Core MarineDelivery.Calls MarineDelivery.Protocol MarineDelivery.Progress

/-- The attempt that ends the upload of a file raises an exception without text: not an
`OSError`, or an `OSError` at the last attempt. -/
def EndsWithoutText (outcomes : ℕ → PutAttempt) (last : ℕ) : Prop :=
  ∃ k ≤ last, (∀ m < k, ∃ text, outcomes m = .osError text) ∧
    (outcomes k = .exception "" ∨ k = last ∧ outcomes k = .osError "")

def Succeeded (pool : UploadPool) (path : PosixPath) : Prop :=
  ∃ call eTag, (call, PutAttempt.success eTag) ∈ pool.trace.filterMap Move.answered? ∧
    call.file = path

/-- The files of the mapping, in two lists. -/
structure Split (keys : Dict PosixPath String) (pool : UploadPool) (res : PutFilesResult) :
    Prop where
  perm : (res.successfulFiles.map (·.localPath) ++
    res.erroredFiles.map fun file => file.localPath).Perm keys.keys
  successful : ∀ path ∈ keys.keys,
    (path ∈ res.successfulFiles.map (·.localPath) ↔ Succeeded pool path)
  errored : ∀ path ∈ keys.keys,
    (path ∈ res.erroredFiles.map (fun file => file.localPath) ↔ ¬ Succeeded pool path)

/-- `upload_multiple_files` comes to an end and returns the two lists, in every interleaving in
which the puts end as the oracle says. -/
structure Survives (setup : UploadSetup) (keys : Dict PosixPath String)
    (oracle : PutCall → PutAttempt) : Prop where
  ends : ∃ bound, ∀ labels pool, run (WorkerPool.step setup) {} labels = some pool →
    labels.length ≤ bound
  goesOn : ∀ labels pool, run (WorkerPool.step setup) {} labels = some pool →
    Obeys oracle pool → ¬ Exited setup pool →
    ∃ label pool', WorkerPool.step setup pool label = some pool' ∧ Obeys oracle pool'
  returns : ∀ labels pool, run (WorkerPool.step setup) {} labels = some pool →
    Obeys oracle pool → Exited setup pool →
    ∃ res, collectResults (pool.collected.map Prod.snd) {} = .ok res ∧ Split keys pool res

/-! ### The retries -/

lemma asksAtMost_putFrom (call : ℕ → PutCall) (remaining n : ℕ) :
    AsksAtMost (remaining + 1) (putFrom call remaining n) := by
  induction remaining generalizing n with
  | zero =>
      rw [putFrom]
      exact asksAtMost_ask fun a => by cases a <;> exact asksAtMost_done _ _
  | succ remaining ih =>
      rw [putFrom]
      refine asksAtMost_ask fun a => ?_
      cases a with
      | osError text => exact ih (n + 1)
      | success eTag | exception text => exact asksAtMost_done _ _

lemma asksAtMost_uploadFile (call : ℕ → PutCall) (times : UploadTimes) (key : String)
    (file : PosixPath) (dryRun raiseOnError : Bool) :
    AsksAtMost osErrorRetries (uploadFile call times key file dryRun raiseOnError) := by
  unfold uploadFile
  split_ifs
  · exact asksAtMost_done _ _
  · exact (asksAtMost_putFrom call (osErrorRetries - 1) 1).map _

/-- The retries, every attempt ending as the oracle says. -/
lemma putFrom_obeys (oracle : PutCall → PutAttempt) (call : ℕ → PutCall) (remaining n : ℕ) :
    ∀ x ∈ (putFrom call remaining n).exchange fun k => oracle (call (n + k)),
      x.2 = oracle x.1 := by
  induction remaining generalizing n with
  | zero =>
      intro x hx
      rw [putFrom, Process.exchange] at hx
      rcases List.mem_cons.mp hx with rfl | hx
      · rfl
      · cases ha : oracle (call (n + 0)) with
        | success eTag | osError text | exception text =>
            rw [ha] at hx
            cases hx
  | succ remaining ih =>
      intro x hx
      rw [putFrom, Process.exchange] at hx
      rcases List.mem_cons.mp hx with rfl | hx
      · rfl
      · cases ha : oracle (call (n + 0)) with
        | success eTag | exception text =>
            rw [ha] at hx
            cases hx
        | osError text =>
            rw [ha] at hx
            have hnext := ih (n + 1) x
            simp only [Nat.add_right_comm n 1, ← Nat.add_assoc] at hnext hx
            exact hnext hx

lemma retryResult_of_obeys {oracle : PutCall → PutAttempt} {call : ℕ → PutCall}
    {remaining n : ℕ} {answers : ℕ → PutAttempt}
    (h : ∀ x ∈ (putFrom call remaining n).exchange answers, x.2 = oracle x.1) :
    retryResult remaining answers = retryResult remaining fun k => oracle (call (n + k)) := by
  rw [← putFrom_result call remaining n, ← putFrom_result call remaining n]
  exact (Process.eq_of_obeys h (putFrom_obeys oracle call remaining n)).2

lemma success_mem_exchange_iff {call : ℕ → PutCall} {remaining n : ℕ}
    {answers : ℕ → PutAttempt} :
    (∃ q eTag, (q, PutAttempt.success eTag) ∈ (putFrom call remaining n).exchange answers) ↔
      ∃ eTag, retryResult remaining answers = .ok eTag := by
  induction remaining generalizing n answers with
  | zero =>
      rw [putFrom, retryResult, Process.exchange]
      cases ha : answers 0 <;> simp [Process.exchange]
  | succ remaining ih =>
      rw [putFrom, retryResult, Process.exchange]
      cases ha : answers 0 with
      | success eTag | exception text => simp [Process.exchange]
      | osError text => simpa using ih (n := n + 1)

lemma endsWithoutText_zero {outcomes : ℕ → PutAttempt} :
    EndsWithoutText outcomes 0 ↔ outcomes 0 = .exception "" ∨ outcomes 0 = .osError "" := by
  constructor
  · rintro ⟨k, hk, -, hend⟩
    obtain rfl := Nat.le_zero.mp hk
    exact hend.imp_right And.right
  · intro h
    exact ⟨0, le_refl 0, fun m hm => absurd hm (Nat.not_lt_zero m),
      h.imp_right fun h => ⟨rfl, h⟩⟩

lemma endsWithoutText_succ {outcomes : ℕ → PutAttempt} {last : ℕ} :
    EndsWithoutText outcomes (last + 1) ↔
      outcomes 0 = .exception "" ∨ (∃ text, outcomes 0 = .osError text) ∧
        EndsWithoutText (fun n => outcomes (n + 1)) last := by
  constructor
  · rintro ⟨k, hk, hbefore, hend⟩
    cases k with
    | zero => exact .inl (hend.resolve_right fun h => absurd h.1 (Nat.succ_ne_zero last).symm)
    | succ k =>
        refine .inr ⟨hbefore 0 k.succ_pos, k, Nat.le_of_succ_le_succ hk,
          fun m hm => hbefore (m + 1) (Nat.succ_lt_succ hm), hend.imp_right fun h => ?_⟩
        exact ⟨Nat.succ_injective h.1, h.2⟩
  · rintro (h | ⟨hfirst, k, hk, hbefore, hend⟩)
    · exact ⟨0, Nat.zero_le _, fun m hm => absurd hm (Nat.not_lt_zero m), .inl h⟩
    · refine ⟨k + 1, Nat.succ_le_succ hk, fun m hm => ?_, hend.imp_right fun h => ?_⟩
      · cases m with
        | zero => exact hfirst
        | succ m => exact hbefore m (Nat.lt_of_succ_lt_succ hm)
      · exact ⟨congrArg Nat.succ h.1, h.2⟩

/-- The retries fail without a text exactly when the attempt that ends them does. -/
lemma retryResult_error_iff {remaining : ℕ} {outcomes : ℕ → PutAttempt} :
    (∃ e, retryResult remaining outcomes = .error e ∧ e.text = "") ↔
      EndsWithoutText outcomes remaining := by
  induction remaining generalizing outcomes with
  | zero =>
      rw [endsWithoutText_zero, retryResult]
      cases outcomes 0 <;> simp [PutFailure.text]
  | succ remaining ih =>
      rw [endsWithoutText_succ, retryResult, ← ih]
      cases outcomes 0 <;> simp [PutFailure.text]

/-! ### One file -/

lemma settles_iff {run : FileRun} {outcomes : ℕ → PutAttempt}
    (h : retryResult (osErrorRetries - 1) run.attempts =
      retryResult (osErrorRetries - 1) outcomes) :
    Settles false (verdict false run) ↔ ¬ EndsWithoutText outcomes (osErrorRetries - 1) := by
  rw [← retryResult_error_iff, ← h, verdict, if_neg Bool.false_ne_true]
  rcases retryResult (osErrorRetries - 1) run.attempts with e | (_ | eTag)
  · simp [Settles]
  · simp [Settles, PutFailure.text]
  · simp [Settles]

lemma retryResult_ne_none {remaining : ℕ} {outcomes : ℕ → PutAttempt}
    (htag : ∀ k, outcomes k ≠ .success none) : retryResult remaining outcomes ≠ .ok none := by
  induction remaining generalizing outcomes with
  | zero =>
      rw [retryResult]
      have h0 := htag 0
      cases ha : outcomes 0 <;> simp_all
  | succ remaining ih =>
      rw [retryResult]
      have h0 := htag 0
      cases ha : outcomes 0 with
      | success eTag => simp_all
      | exception text => simp
      | osError text => exact ih fun k => htag (k + 1)

lemma verdict_isOk_iff {run : FileRun}
    (htag : retryResult (osErrorRetries - 1) run.attempts ≠ .ok none) :
    (verdict false run).toBool = true ↔
      ∃ eTag, retryResult (osErrorRetries - 1) run.attempts = .ok eTag := by
  rw [verdict, if_neg Bool.false_ne_true]
  rcases h : retryResult (osErrorRetries - 1) run.attempts with e | (_ | eTag)
  · simp [Except.toBool]
  · exact absurd h htag
  · simp [Except.toBool]

/-! ### All files -/

variable {run : PosixPath → FileRun} {items : List (PosixPath × String)}

lemma map_localPath_successOf :
    (items.filterMap (successOf false run)).map (·.localPath) =
      (items.filter fun item => (verdict false (run item.1)).toBool).map Prod.fst := by
  induction items with
  | nil => rfl
  | cons item items ih =>
      cases hv : verdict false (run item.1) with
      | ok eTag =>
          rw [List.filterMap_cons, List.filter_cons, hv, successOf_ok hv]
          exact congrArg (item.1 :: ·) ih
      | error e =>
          rw [List.filterMap_cons, List.filter_cons, hv, successOf_error hv]
          exact ih

/-- The other ones are errored, when all uploads settle. -/
lemma map_localPath_errorOf
    (h : ∀ item ∈ items, Settles false (verdict false (run item.1))) :
    (items.filterMap (errorOf false run)).map (fun file => file.localPath) =
      (items.filter fun item => !(verdict false (run item.1)).toBool).map Prod.fst := by
  induction items with
  | nil => rfl
  | cons item items ih =>
      obtain ⟨hitem, h⟩ := List.forall_mem_cons.mp h
      cases hv : verdict false (run item.1) with
      | ok eTag =>
          rw [List.filterMap_cons, List.filter_cons, hv, errorOf_ok hv]
          exact ih h
      | error e =>
          rw [hv] at hitem
          obtain ⟨reason, hreason⟩ := extractErrorMessage_ok_iff.mpr hitem.2
          rw [List.filterMap_cons, List.filter_cons, hv, errorOf_error hv hreason]
          exact congrArg (item.1 :: ·) (ih h)

lemma mem_map_fst_filter {keys : Dict PosixPath String}
    {completed : List (PosixPath × String)} (hperm : completed.Perm keys.items)
    (p : PosixPath × String → Bool) {item : PosixPath × String} (hitem : item ∈ keys.items) :
    item.1 ∈ (completed.filter p).map Prod.fst ↔ p item = true := by
  constructor
  · intro h
    obtain ⟨other, hother, hpath⟩ := List.mem_map.mp h
    obtain ⟨hmem, hp⟩ := List.mem_filter.mp hother
    obtain ⟨path, key⟩ := other
    obtain rfl : path = item.1 := hpath
    have hkey : key = item.2 := keys.items_inj (hperm.mem_iff.mp hmem) hitem
    rwa [hkey] at hp
  · intro hp
    exact List.mem_map_of_mem (List.mem_filter.mpr ⟨hperm.mem_iff.mpr hitem, hp⟩)

/-- The two lists of an operation whose uploads all settle. -/
lemma split_of_settles {keys : Dict PosixPath String} {pool : UploadPool}
    {completed : List (PosixPath × String)} (hperm : completed.Perm keys.items)
    (h : ∀ item ∈ keys.items, Settles false (verdict false (run item.1)))
    (hsucceeded : ∀ item ∈ keys.items,
      ((verdict false (run item.1)).toBool = true ↔ Succeeded pool item.1)) :
    Split keys pool ⟨completed.filterMap (successOf false run),
      completed.filterMap (errorOf false run)⟩ := by
  have herrored := map_localPath_errorOf fun item hitem => h item (hperm.mem_iff.mp hitem)
  constructor
  · rw [map_localPath_successOf, herrored, ← List.map_append]
    exact ((List.filter_append_perm _ completed).trans hperm).map Prod.fst
  · intro path hpath
    obtain ⟨item, hitem, rfl⟩ := List.mem_map.mp hpath
    rw [map_localPath_successOf, mem_map_fst_filter hperm _ hitem]
    exact hsucceeded item hitem
  · intro path hpath
    obtain ⟨item, hitem, rfl⟩ := List.mem_map.mp hpath
    rw [herrored, mem_map_fst_filter hperm _ hitem, ← hsucceeded item hitem]
    simp

/-! ### Every interleaving -/

variable {args : CallArgs} {session : Session} {times : ℕ → PosixPath → UploadTimes} {n : ℕ}
variable {keys : Dict PosixPath String} {pool : UploadPool} {oracle : PutCall → PutAttempt}

def outcomes (args : CallArgs) (session : Session) (n : ℕ) (oracle : PutCall → PutAttempt)
    (item : PosixPath × String) (k : ℕ) : PutAttempt :=
  oracle (putCall session.s3Client n args.chunkSizeBytes item (1 + k))

lemma job_exchange (hdry : args.dryRun = false) (item : PosixPath × String)
    (answers : ℕ → PutAttempt) :
    ((futures args session times n keys).job item).exchange answers =
      (putFrom (putCall session.s3Client n args.chunkSizeBytes item) (osErrorRetries - 1)
        1).exchange answers := by
  show (uploadFile (putCall session.s3Client n args.chunkSizeBytes item) (times n item.1) item.2
    item.1 args.dryRun args.raiseOnUploadError).exchange answers = _
  rw [hdry, uploadFile, if_neg Bool.false_ne_true, Process.exchange_map, putWithOsErrorRetry]

lemma succeeded_iff (hdry : args.dryRun = false)
    {answers : PosixPath × String → ℕ → PutAttempt}
    (hanswers : ∀ x, x ∈ pool.trace.filterMap Move.answered? ↔ ∃ item ∈ keys.items,
      x ∈ ((futures args session times n keys).job item).exchange (answers item))
    {item : PosixPath × String} (hitem : item ∈ keys.items) :
    Succeeded pool item.1 ↔
      ∃ eTag, retryResult (osErrorRetries - 1) (answers item) = .ok eTag := by
  have hput : (∃ q eTag, (q, PutAttempt.success eTag) ∈
        ((futures args session times n keys).job item).exchange (answers item)) ↔
      ∃ eTag, retryResult (osErrorRetries - 1) (answers item) = .ok eTag := by
    rw [job_exchange hdry]
    exact success_mem_exchange_iff
  rw [← hput]
  constructor
  · rintro ⟨call, eTag, hmem, hfile⟩
    obtain ⟨other, hother, hmem⟩ := (hanswers _).mp hmem
    obtain ⟨m, hcall⟩ := (leads_uploadFile_calls (leads_exchange _ (answers other))).1 _ hmem
    obtain ⟨path, key⟩ := other
    obtain rfl : path = item.1 := by
      rw [← hfile, show call = _ from hcall]
      rfl
    have hkey : key = item.2 := keys.items_inj hother hitem
    subst hkey
    exact ⟨call, eTag, hmem⟩
  · rintro ⟨call, eTag, hmem⟩
    obtain ⟨m, hcall⟩ := (leads_uploadFile_calls (leads_exchange _ (answers item))).1 _ hmem
    refine ⟨call, eTag, (hanswers _).mpr ⟨item, hitem, hmem⟩, ?_⟩
    rw [show call = _ from hcall]
    rfl

/-- One interleaving returns exactly when every upload ends with a text, if it fails. -/
lemma returns_iff (hdry : args.dryRun = false) (hraise : args.raiseOnUploadError = false)
    (htag : ∀ call, oracle call ≠ .success none)
    (hpool : Sound (futures args session times n keys) pool) (hobeys : Obeys oracle pool)
    (hexit : Exited (futures args session times n keys) pool) :
    (∃ res, collectResults (pool.collected.map Prod.snd) {} = .ok res ∧ Split keys pool res) ↔
      ∀ item ∈ keys.items,
        ¬ EndsWithoutText (outcomes args session n oracle item) (osErrorRetries - 1) := by
  obtain ⟨answers, run, completed, hperm, hrun, hanswers, hresults⟩ :=
    exists_outcome hpool hexit
  rw [← hresults, hdry, hraise]
  have hretry : ∀ item ∈ keys.items, retryResult (osErrorRetries - 1) (run item.1).attempts =
      retryResult (osErrorRetries - 1) (outcomes args session n oracle item) := by
    intro item hitem
    rw [hrun item hitem]
    refine retryResult_of_obeys (n := 1) fun x hx => hobeys x ((hanswers x).mpr ⟨item, hitem, ?_⟩)
    rw [job_exchange hdry]
    exact hx
  have hsettles : ∀ item ∈ keys.items, (Settles false (verdict false (run item.1)) ↔
      ¬ EndsWithoutText (outcomes args session n oracle item) (osErrorRetries - 1)) :=
    fun item hitem => settles_iff (hretry item hitem)
  constructor
  · rintro ⟨res, hres, -⟩ item hitem
    have hall := (collectResults_ok_iff.mp hres).1
    exact (hsettles item hitem).mp (hall item (hperm.mem_iff.mpr hitem))
  · intro h
    have hall : ∀ item ∈ keys.items, Settles false (verdict false (run item.1)) :=
      fun item hitem => (hsettles item hitem).mpr (h item hitem)
    refine ⟨_, collectResults_ok_iff.mpr
      ⟨fun item hitem => hall item (hperm.mem_iff.mp hitem), rfl⟩, ?_⟩
    refine split_of_settles hperm hall fun item hitem => ?_
    have hne : retryResult (osErrorRetries - 1) (run item.1).attempts ≠ .ok none :=
      hretry item hitem ▸ retryResult_ne_none fun k => htag _
    rw [verdict_isOk_iff hne, hrun item hitem, succeeded_iff hdry hanswers hitem]

/-- **When a failing file takes the others down.** Whatever the mapping, the number of workers
and the ends of the puts: every interleaving comes to an end and returns each file in one of the
two lists, among the successful ones exactly if one of its put attempts succeeded, if and only
if no upload is ended by an exception with an empty text. -/
theorem survives_iff (args : CallArgs) (session : Session)
    (times : ℕ → PosixPath → UploadTimes) (n : ℕ) (keys : Dict PosixPath String)
    (oracle : PutCall → PutAttempt) (hdry : args.dryRun = false)
    (hraise : args.raiseOnUploadError = false) (hworkers : 1 ≤ args.maxConcurrentUploads)
    (htag : ∀ call, oracle call ≠ .success none) :
    Survives (futures args session times n keys) keys oracle ↔
      ∀ item ∈ keys.items,
        ¬ EndsWithoutText (outcomes args session n oracle item) (osErrorRetries - 1) := by
  have hbusy : 0 < (futures args session times n keys).workers := by
    show 0 < args.maxConcurrentUploads.toNat
    omega
  have hasks : ∀ item ∈ keys.items,
      AsksAtMost osErrorRetries ((futures args session times n keys).job item) :=
    fun item _ => asksAtMost_uploadFile _ _ _ _ _ _
  constructor
  · intro h
    obtain ⟨labels, pool, hrun, hobeys, hexit⟩ := exists_exited hbusy hasks oracle
    exact (returns_iff hdry hraise htag (sound_of_run hrun) hobeys hexit).mp
      (h.returns labels pool hrun hobeys hexit)
  · intro h
    refine ⟨⟨_, fun labels pool hrun => run_length_le hasks hrun⟩, ?_, ?_⟩
    · intro labels pool hrun hobeys hexit
      obtain ⟨label, pool', hstep, hkeep⟩ := exists_step hbusy hexit oracle
      exact ⟨label, pool', hstep, hkeep hobeys⟩
    · intro labels pool hrun hobeys hexit
      exact (returns_iff hdry hraise htag (sound_of_run hrun) hobeys hexit).mpr h

def exampleKeys : Dict PosixPath String :=
  Dict.ofList [(ofString "a.nc", "ka"), (ofString "b.nc", "kb")]

/-- The put of the second file raises an exception with this text. -/
def exampleOracle (text : String) (call : PutCall) : PutAttempt :=
  if call.key = "kb" then .exception text else .success (some "t1")

theorem survives_iff_refused :
    Survives (futures exampleArgs (exampleSession []) exampleTimes 0 exampleKeys) exampleKeys
        (exampleOracle "refused") ↔
      ∀ item ∈ exampleKeys.items, ¬ EndsWithoutText
        (outcomes exampleArgs (exampleSession []) 0 (exampleOracle "refused") item) 2 :=
  survives_iff exampleArgs (exampleSession []) exampleTimes 0 exampleKeys
    (exampleOracle "refused") rfl rfl (by decide) fun call => by
      unfold exampleOracle
      split_ifs <;> simp

def exampleLabels (text : String) : List (WorkerPool.Label (PosixPath × String) PutAttempt) :=
  [.start (ofString "a.nc", "ka"), .ask (ofString "a.nc", "ka"),
    .answer (ofString "a.nc", "ka") (.success (some "t1")),
    .start (ofString "b.nc", "kb"), .ask (ofString "b.nc", "kb"),
    .answer (ofString "b.nc", "kb") (.exception text),
    .collect (ofString "a.nc", "ka"), .collect (ofString "b.nc", "kb")]

/-- An exception without text takes the file down that has been uploaded. -/
theorem not_survives_empty :
    ¬ Survives (futures exampleArgs (exampleSession []) exampleTimes 0 exampleKeys) exampleKeys
      (exampleOracle "") := by
  intro h
  have hrun : (run (WorkerPool.step (futures exampleArgs (exampleSession []) exampleTimes 0
      exampleKeys)) {} (exampleLabels "")).any (fun pool =>
        decide (Exited (futures exampleArgs (exampleSession []) exampleTimes 0 exampleKeys) pool) &&
        decide (∀ x ∈ pool.trace.filterMap Move.answered?, x.2 = exampleOracle "" x.1) &&
        !(collectResults (pool.collected.map Prod.snd) {}).toBool) = true := by
    decide +kernel
  obtain ⟨pool, hpool, hend⟩ := (Option.any_eq_true _ _).mp hrun
  simp only [Bool.and_eq_true, decide_eq_true_iff, Bool.not_eq_true'] at hend
  obtain ⟨⟨hexit, hobeys⟩, hraised⟩ := hend
  obtain ⟨res, hres, -⟩ := h.returns _ pool hpool hobeys hexit
  rw [hres] at hraised
  cases hraised

end MarineDelivery.Isolation
