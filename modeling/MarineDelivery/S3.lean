import MarineDelivery.Domain
import MarineDelivery.OrderedDict
import MarineDelivery.Processes
import MarineDelivery.Traced

/-!
Uploading local files to the ingestion bucket.

The upload of a file is a process that asks for puts; the object store answers. `Uploads` is
all it answers, for every file of every operation, together with the order in which the
uploads of an operation finish. Here the uploads of an operation are written down one after
the other; every interleaving of the worker threads is in `WorkerPool` and `Protocol`.
-/

namespace MarineDelivery.S3

open MarineDelivery.PathLib MarineDelivery.Errors MarineDelivery.Common MarineDelivery.Domain
open MarineDelivery.OrderedDict MarineDelivery.Traced MarineDelivery.Processes

structure S3Client where
  bucketName : String
  endpointUrl : String
  pushingEntityId : String
  onBehalfOf : Option String
  maxConcurrency : ℤ
  deriving DecidableEq

/-- How one call of `put` ends. The store may leave out the `e_tag`. -/
inductive PutAttempt
  | success (eTag : Option String)
  | osError (text : String)
  | exception (text : String)
  deriving DecidableEq

instance : Inhabited PutAttempt := ⟨.success none⟩

/-- One call of `put`, with the position of the operation it is made for. -/
structure PutCall where
  operation : ℕ
  client : S3Client
  file : PosixPath
  key : String
  chunkSize : ℤ
  attempt : ℕ
  deriving DecidableEq

/-- What the outside sees of a call of the tool. -/
inductive Event
  | started (call : PutCall)
  | ended (call : PutCall) (outcome : PutAttempt)
  | posted (delivery : Delivery)
  deriving DecidableEq

/-- The exceptions that reach the handler of `upload_file`. -/
inductive PutFailure
  | osError (text : String)
  | exception (text : String)
  | attributeError (text : String)
  deriving DecidableEq

/-- `str(e)`. -/
def PutFailure.text : PutFailure → String
  | .osError text => text
  | .exception text => text
  | .attributeError text => text

def PutFailure.raised : PutFailure → PyError
  | .osError text => .osError text
  | .exception text => .other text
  | .attributeError text => .attributeError text

/-! ### One file -/

/-- A match of `message: "([^"]+)"` at the start of the text. -/
def matchMessage (w : List Char) : Option (List Char) :=
  if "message: \"".toList <+: w then
    let rest := w.drop "message: \"".toList.length
    let group := rest.takeWhile (· ≠ '"')
    if group ≠ [] ∧ group.length < rest.length then some group else none
  else none

/-- `re.search`: the first place with a match. -/
def searchMessage (w : List Char) : Option (List Char) := w.tails.findSome? matchMessage

/-- Where `str.splitlines` cuts. -/
def isLineBoundary (c : Char) : Bool :=
  c.toNat ∈ [0x0A, 0x0B, 0x0C, 0x0D, 0x1C, 0x1D, 0x1E, 0x85, 0x2028, 0x2029]

/-- The empty text has no line, so that `splitlines()[0]` raises. -/
def extractErrorMessage (text : String) : Except PyError String :=
  match searchMessage text.toList with
  | some group => .ok (String.ofList group)
  | none =>
    if text = "" then .error (.indexError "list index out of range")
    else .ok (String.ofList (text.toList.takeWhile fun c => !isLineBoundary c))

def stripQuotes (s : String) : String :=
  String.ofList (((s.toList.dropWhile (· = '"')).reverse.dropWhile (· = '"')).reverse)

def osErrorRetries : ℕ := 3

/-- `_put_with_os_error_retry` from attempt `n` on, `remaining` attempts after this one. -/
def putFrom (call : ℕ → PutCall) :
    ℕ → ℕ → Process PutCall PutAttempt (Except PutFailure (Option String))
  | remaining, n => .ask (call n) fun
    | .success eTag => .done (.ok eTag)
    | .exception text => .done (.error (.exception text))
    | .osError text =>
      match remaining with
      | 0 => .done (.error (.osError text))
      | remaining + 1 => putFrom call remaining (n + 1)

def putWithOsErrorRetry (call : ℕ → PutCall) :
    Process PutCall PutAttempt (Except PutFailure (Option String)) :=
  putFrom call (osErrorRetries - 1) 1

/-- What the clock says around the put of a file. -/
structure UploadTimes where
  uploadStartTime : String
  uploadEndTime : String
  deriving DecidableEq

/-- What the world does to the upload of one file. -/
structure FileRun extends UploadTimes where
  attempts : ℕ → PutAttempt

inductive FileResult
  | uploaded (file : S3File)
  | failed (file : ErrorFile)
  deriving DecidableEq

/-- The `except` block of `upload_file`. -/
def onUploadError (raiseOnError : Bool) (file : PosixPath) (e : PutFailure) :
    Except PyError FileResult :=
  if raiseOnError then .error e.raised
  else do
    let reason ← extractErrorMessage e.text
    return .failed ⟨⟨file, reason⟩⟩

/-- What `upload_file` makes of the end of the put. -/
def finishUpload (raiseOnError : Bool) (file : PosixPath) (key : String) (times : UploadTimes)
    (putResult : Except PutFailure (Option String)) : Except PyError FileResult :=
  match putResult with
  | .ok (some eTag) =>
    .ok (.uploaded ⟨file, key, stripQuotes eTag, times.uploadStartTime, times.uploadEndTime⟩)
  | .ok none =>
    onUploadError raiseOnError file
      (.attributeError "'NoneType' object has no attribute 'strip'")
  | .error e => onUploadError raiseOnError file e

def uploadFile (call : ℕ → PutCall) (times : UploadTimes) (key : String) (file : PosixPath)
    (dryRun raiseOnError : Bool) : Process PutCall PutAttempt (Except PyError FileResult) :=
  if dryRun then
    .done (.ok (.uploaded ⟨file, key, "dry-run", times.uploadStartTime, times.uploadEndTime⟩))
  else (putWithOsErrorRetry call).map (finishUpload raiseOnError file key times)

/-! ### All files of an operation -/

/-- What the object store and the clock do to the files of a delivery: every file of every
operation has a run, and the uploads of an operation finish in some order. -/
structure Uploads where
  run : ℕ → PosixPath → FileRun
  completed : ℕ → List (PosixPath × String) → List (PosixPath × String)
  completed_perm : ∀ n l, (completed n l).Perm l

/-- The loop over `as_completed`: a future that failed raises here. -/
def collectResults : List (Except PyError FileResult) → PutFilesResult →
    Except PyError PutFilesResult
  | [], acc => .ok acc
  | .error e :: _, _ => .error e
  | .ok (.uploaded file) :: rest, acc =>
    collectResults rest { acc with successfulFiles := acc.successfulFiles ++ [file] }
  | .ok (.failed file) :: rest, acc =>
    collectResults rest { acc with erroredFiles := acc.erroredFiles ++ [file] }

def putCall (client : S3Client) (operation : ℕ) (chunkSize : ℤ) (item : PosixPath × String)
    (attempt : ℕ) : PutCall :=
  ⟨operation, client, item.1, item.2, chunkSize, attempt⟩

/-- Calls of `put`, one after the other, as they are seen from outside. -/
def putEvents (log : List (PutCall × PutAttempt)) : List Event :=
  log.flatMap fun x => [.started x.1, .ended x.1 x.2]

/-- Every file of the mapping is uploaded, also after one has failed: leaving the executor
waits for all of them. -/
def uploadMultipleFiles (client : S3Client) (uploads : Uploads) (operation : ℕ)
    (s3KeyLocalFileMapping : Dict PosixPath String) (raiseOnError : Bool) (chunkSize : ℤ)
    (maxConcurrentUploads : ℤ) (dryRun : Bool) : Comp Event PyError PutFilesResult :=
  if maxConcurrentUploads ≤ 0 then
    Comp.throw (.valueError "max_workers must be greater than 0")
  else do
    let run (item : PosixPath × String) := uploads.run operation item.1
    let future (item : PosixPath × String) :=
      uploadFile (putCall client operation chunkSize item) (run item).toUploadTimes item.2 item.1
        dryRun raiseOnError
    Comp.emit (s3KeyLocalFileMapping.items.flatMap fun item =>
      putEvents ((future item).exchange (run item).attempts))
    Comp.lift (collectResults
      ((uploads.completed operation s3KeyLocalFileMapping.items).map fun item =>
        (future item).result (run item).attempts) {})

/-! ### What the functions return -/

lemma extractErrorMessage_ok_iff {text : String} :
    (∃ reason, extractErrorMessage text = .ok reason) ↔ text ≠ "" := by
  unfold extractErrorMessage
  constructor
  · rintro ⟨reason, h⟩ rfl
    rw [show searchMessage "".toList = none from by decide] at h
    simp at h
  · intro h
    cases searchMessage text.toList with
    | some group => exact ⟨_, rfl⟩
    | none => exact ⟨_, if_neg h⟩

/-- The end of the retry loop, without its calls. -/
def retryResult : ℕ → (ℕ → PutAttempt) → Except PutFailure (Option String)
  | remaining, attempts =>
    match attempts 0 with
    | .success eTag => .ok eTag
    | .exception text => .error (.exception text)
    | .osError text =>
      match remaining with
      | 0 => .error (.osError text)
      | remaining + 1 => retryResult remaining fun n => attempts (n + 1)

lemma putFrom_result (call : ℕ → PutCall) (remaining n : ℕ) (attempts : ℕ → PutAttempt) :
    (putFrom call remaining n).result attempts = retryResult remaining attempts := by
  induction remaining generalizing n attempts with
  | zero =>
      rw [putFrom, retryResult, Process.result]
      cases attempts 0 <;> rfl
  | succ remaining ih =>
      rw [putFrom, retryResult, Process.result]
      cases attempts 0 with
      | success eTag => rfl
      | exception text => rfl
      | osError text => exact ih (n + 1) _

/-- How the upload of a file ends: with the checksum of its object, or with the exception the
handler sees. -/
def verdict (dryRun : Bool) (run : FileRun) : Except PutFailure String :=
  if dryRun then .ok "dry-run"
  else
    match retryResult (osErrorRetries - 1) run.attempts with
    | .ok (some eTag) => .ok (stripQuotes eTag)
    | .ok none => .error (.attributeError "'NoneType' object has no attribute 'strip'")
    | .error e => .error e

lemma uploadFile_result (call : ℕ → PutCall) (run : FileRun) (key : String) (file : PosixPath)
    (dryRun raiseOnError : Bool) :
    (uploadFile call run.toUploadTimes key file dryRun raiseOnError).result run.attempts =
      match verdict dryRun run with
      | .ok eTag =>
        .ok (.uploaded ⟨file, key, eTag, run.uploadStartTime, run.uploadEndTime⟩)
      | .error e => onUploadError raiseOnError file e := by
  unfold uploadFile verdict
  cases dryRun with
  | true => rfl
  | false =>
      simp only [Bool.false_eq_true, if_false]
      rw [Process.result_map, putWithOsErrorRetry, putFrom_result]
      rcases retryResult (osErrorRetries - 1) run.attempts with e | (_ | eTag) <;> rfl

lemma uploadFile_dryRun_exchange (call : ℕ → PutCall) (times : UploadTimes) (key : String)
    (file : PosixPath) (raiseOnError : Bool) (answers : ℕ → PutAttempt) :
    (uploadFile call times key file true raiseOnError).exchange answers = [] := rfl

lemma onUploadError_ok_iff {raiseOnError : Bool} {file : PosixPath} {e : PutFailure}
    {r : FileResult} :
    onUploadError raiseOnError file e = .ok r ↔
      raiseOnError = false ∧ ∃ reason, extractErrorMessage e.text = .ok reason ∧
        r = .failed ⟨⟨file, reason⟩⟩ := by
  unfold onUploadError
  cases raiseOnError with
  | true => simp
  | false =>
      rw [if_neg Bool.false_ne_true, bind_eq_ok]
      simp only [pure, Except.pure, Except.ok.injEq, true_and, eq_comm]

/-! ### What a file asks for -/

lemma leads_putFrom_calls {call : ℕ → PutCall} {remaining n : ℕ}
    {log : List (PutCall × PutAttempt)}
    {p : Process PutCall PutAttempt (Except PutFailure (Option String))}
    (h : Leads (putFrom call remaining n) log p) :
    (∀ x ∈ log, ∃ m, x.1 = call m) ∧ ∀ q next, p = .ask q next → ∃ m, q = call m := by
  induction remaining generalizing n log with
  | zero =>
      rw [putFrom] at h
      cases h with
      | refl => exact ⟨by simp, fun q next e => ⟨n, by cases e; rfl⟩⟩
      | ask q next a h =>
          obtain ⟨r, hr⟩ : ∃ r, Leads (.done r) _ p := by
            cases a <;> exact ⟨_, h⟩
          obtain ⟨rfl, rfl⟩ := leads_done hr
          exact ⟨by simp, nofun⟩
  | succ remaining ih =>
      rw [putFrom] at h
      cases h with
      | refl => exact ⟨by simp, fun q next e => ⟨n, by cases e; rfl⟩⟩
      | ask q next a h =>
          cases a with
          | osError text =>
              obtain ⟨hlog, hp⟩ := ih h
              exact ⟨List.forall_mem_cons.mpr ⟨⟨n, rfl⟩, hlog⟩, hp⟩
          | success eTag | exception text =>
              obtain ⟨rfl, rfl⟩ := leads_done h
              exact ⟨by simp, nofun⟩

/-- A put that returns has only met `OSError`s before its last call, none of them at the last
attempt. -/
lemma leads_putFrom_ok {call : ℕ → PutCall} {remaining n : ℕ}
    {log : List (PutCall × PutAttempt)} {eTag : Option String}
    (h : Leads (putFrom call remaining n) log (.done (.ok eTag))) :
    ∃ init m, log = init ++ [(call m, .success eTag)] ∧
      ∀ x ∈ init, ∃ k < n + remaining, ∃ text, x = (call k, .osError text) := by
  induction remaining generalizing n log with
  | zero =>
      rw [putFrom] at h
      cases h with
      | ask q next a h =>
          cases a with
          | success e =>
              obtain ⟨rfl, he⟩ := leads_done h
              cases he
              exact ⟨[], n, rfl, by simp⟩
          | osError text | exception text => cases (leads_done h).2
  | succ remaining ih =>
      rw [putFrom] at h
      cases h with
      | ask q next a h =>
          cases a with
          | success e =>
              obtain ⟨rfl, he⟩ := leads_done h
              cases he
              exact ⟨[], n, rfl, by simp⟩
          | exception text => cases (leads_done h).2
          | osError text =>
              obtain ⟨init, m, rfl, hinit⟩ := ih h
              refine ⟨(call n, .osError text) :: init, m, rfl, ?_⟩
              refine List.forall_mem_cons.mpr ⟨⟨n, by omega, text, rfl⟩, fun x hx => ?_⟩
              obtain ⟨k, hk, t, rfl⟩ := hinit x hx
              exact ⟨k, by omega, t, rfl⟩

lemma leads_uploadFile_calls {call : ℕ → PutCall} {times : UploadTimes} {key : String}
    {file : PosixPath} {dryRun raiseOnError : Bool} {log : List (PutCall × PutAttempt)}
    {p : Process PutCall PutAttempt (Except PyError FileResult)}
    (h : Leads (uploadFile call times key file dryRun raiseOnError) log p) :
    (∀ x ∈ log, ∃ m, x.1 = call m) ∧ ∀ q next, p = .ask q next → ∃ m, q = call m := by
  unfold uploadFile at h
  split_ifs at h with hd
  · obtain ⟨rfl, rfl⟩ := leads_done h
    exact ⟨by simp, nofun⟩
  · obtain ⟨p₀, h₀, rfl⟩ := leads_map h
    obtain ⟨hlog, hp⟩ := leads_putFrom_calls h₀
    refine ⟨hlog, fun q next e => ?_⟩
    cases p₀ with
    | done r => cases e
    | ask q₀ next₀ =>
        obtain ⟨rfl, -⟩ := Process.ask.inj e
        exact hp q₀ next₀ rfl

/-- The attempt after which a file counts as failed. -/
def PutAttempt.fails (attempt : ℕ) : PutAttempt → Bool
  | .success eTag => eTag = none
  | .osError _ => attempt = osErrorRetries
  | .exception _ => true

/-- **What an uploaded file has behind it**: its last call returned the `e_tag` that is its
checksum, and no earlier one returned anything. -/
theorem leads_uploadFile_uploaded {client : S3Client} {operation : ℕ} {chunkSize : ℤ}
    {item : PosixPath × String} {times : UploadTimes} {raiseOnError : Bool}
    {log : List (PutCall × PutAttempt)} {s : S3File}
    (h : Leads (uploadFile (putCall client operation chunkSize item) times item.2 item.1 false
      raiseOnError) log (.done (.ok (.uploaded s)))) :
    ∃ eTag m, s = ⟨item.1, item.2, stripQuotes eTag, times.uploadStartTime,
        times.uploadEndTime⟩ ∧
      (putCall client operation chunkSize item m, .success (some eTag)) ∈ log ∧
      (∀ q o, (q, PutAttempt.success o) ∈ log → o = some eTag) ∧
      ∀ x ∈ log, x.2.fails x.1.attempt = false := by
  rw [uploadFile, if_neg Bool.false_ne_true] at h
  obtain ⟨p₀, h₀, he⟩ := leads_map h
  cases p₀ with
  | ask q next => cases he
  | done r =>
      have hf := Process.done.inj he
      rcases r with e | (_ | eTag)
      · obtain ⟨-, reason, -, hr⟩ := onUploadError_ok_iff.mp hf.symm
        cases hr
      · obtain ⟨-, reason, -, hr⟩ := onUploadError_ok_iff.mp hf.symm
        cases hr
      · obtain ⟨init, m, rfl, hinit⟩ := leads_putFrom_ok h₀
        refine ⟨eTag, m, ?_, by simp, fun q o hq => ?_, fun x hx => ?_⟩
        · simp only [finishUpload, Except.ok.injEq, FileResult.uploaded.injEq] at hf
          exact hf
        · rcases List.mem_append.mp hq with hq | hq
          · obtain ⟨k, -, text, hk⟩ := hinit _ hq
            cases hk
          · simp only [List.mem_singleton, Prod.mk.injEq, PutAttempt.success.injEq] at hq
            exact hq.2
        · rcases List.mem_append.mp hx with hx | hx
          · obtain ⟨k, hk, text, rfl⟩ := hinit _ hx
            have hlt : k < osErrorRetries := hk
            exact decide_eq_false (Nat.ne_of_lt hlt)
          · rw [List.mem_singleton.mp hx]
            rfl

/-- The `e_tag` behind a checksum, the call that returned it, and the calls before it. -/
lemma exists_put_of_verdict (client : S3Client) (operation : ℕ) (chunkSize : ℤ)
    (item : PosixPath × String) (raiseOnError : Bool) {run : FileRun} {checksum : String}
    (h : verdict false run = .ok checksum) :
    let log := (uploadFile (putCall client operation chunkSize item) run.toUploadTimes item.2
      item.1 false raiseOnError).exchange run.attempts
    ∃ eTag m, checksum = stripQuotes eTag ∧
      (putCall client operation chunkSize item m, .success (some eTag)) ∈ log ∧
      (∀ q o, (q, PutAttempt.success o) ∈ log → o = some eTag) ∧
      ∀ x ∈ log, x.2.fails x.1.attempt = false := by
  intro log
  have hl := leads_exchange (uploadFile (putCall client operation chunkSize item)
    run.toUploadTimes item.2 item.1 false raiseOnError) run.attempts
  rw [uploadFile_result, h] at hl
  obtain ⟨eTag, m, hs, hlog⟩ := leads_uploadFile_uploaded hl
  exact ⟨eTag, m, congrArg S3File.eTag hs, hlog⟩

/-- The upload of a file begins with its first call, unless it is a dry run. -/
lemma first_mem_exchange (call : ℕ → PutCall) (times : UploadTimes) (key : String)
    (file : PosixPath) (raiseOnError : Bool) (answers : ℕ → PutAttempt) :
    (call 1, answers 0) ∈
      (uploadFile call times key file false raiseOnError).exchange answers := by
  rw [uploadFile, if_neg Bool.false_ne_true, putWithOsErrorRetry, putFrom, Process.map,
    Process.exchange]
  exact List.mem_cons_self

lemma started_mem_putEvents {log : List (PutCall × PutAttempt)} {q : PutCall} :
    Event.started q ∈ putEvents log ↔ ∃ a, (q, a) ∈ log := by
  simp [putEvents]

lemma ended_mem_putEvents {log : List (PutCall × PutAttempt)} {q : PutCall} {a : PutAttempt} :
    Event.ended q a ∈ putEvents log ↔ (q, a) ∈ log := by
  simp [putEvents]

/-! ### What an operation returns -/

/-- The future of a file does not raise. -/
def Settles (raiseOnError : Bool) (v : Except PutFailure String) : Prop :=
  match v with
  | .ok _ => True
  | .error e => raiseOnError = false ∧ e.text ≠ ""

def successOf (dryRun : Bool) (run : PosixPath → FileRun) (item : PosixPath × String) :
    Option S3File :=
  match verdict dryRun (run item.1) with
  | .ok eTag =>
    some ⟨item.1, item.2, eTag, (run item.1).uploadStartTime, (run item.1).uploadEndTime⟩
  | .error _ => none

def errorOf (dryRun : Bool) (run : PosixPath → FileRun) (item : PosixPath × String) :
    Option ErrorFile :=
  match verdict dryRun (run item.1) with
  | .ok _ => none
  | .error e =>
    match extractErrorMessage e.text with
    | .ok reason => some ⟨⟨item.1, reason⟩⟩
    | .error _ => none

section

variable {dryRun : Bool} {run : PosixPath → FileRun} {p : PosixPath} {key : String}

lemma successOf_ok {eTag : String} (h : verdict dryRun (run p) = .ok eTag) :
    successOf dryRun run (p, key) =
      some ⟨p, key, eTag, (run p).uploadStartTime, (run p).uploadEndTime⟩ := by
  rw [successOf, h]

lemma successOf_error {e : PutFailure} (h : verdict dryRun (run p) = .error e) :
    successOf dryRun run (p, key) = none := by
  rw [successOf, h]

lemma errorOf_ok {eTag : String} (h : verdict dryRun (run p) = .ok eTag) :
    errorOf dryRun run (p, key) = none := by
  rw [errorOf, h]

lemma errorOf_error {e : PutFailure} {reason : String} (h : verdict dryRun (run p) = .error e)
    (hr : extractErrorMessage e.text = .ok reason) :
    errorOf dryRun run (p, key) = some ⟨⟨p, reason⟩⟩ := by
  simp only [errorOf, h, hr]

lemma successOf_eq_some {item : PosixPath × String} {s : S3File}
    (h : successOf dryRun run item = some s) :
    ∃ eTag, verdict dryRun (run item.1) = .ok eTag ∧
      s = ⟨item.1, item.2, eTag, (run item.1).uploadStartTime,
        (run item.1).uploadEndTime⟩ := by
  obtain ⟨p, key⟩ := item
  cases hv : verdict dryRun (run p) with
  | error e => rw [successOf_error hv] at h; cases h
  | ok eTag =>
      rw [successOf_ok hv] at h
      exact ⟨eTag, rfl, (Option.some.inj h).symm⟩

lemma errorOf_localPath {item : PosixPath × String} {x : ErrorFile}
    (h : errorOf dryRun run item = some x) : x.localPath = item.1 := by
  obtain ⟨p, key⟩ := item
  cases hv : verdict dryRun (run p) with
  | ok eTag => rw [errorOf_ok hv] at h; cases h
  | error e =>
      cases hr : extractErrorMessage e.text with
      | error y => simp only [errorOf, hv, hr, reduceCtorEq] at h
      | ok reason =>
          rw [errorOf_error hv hr] at h
          rw [← Option.some.inj h]

end

/-- **Results of a whole mapping.** The loop over the futures returns when no future raises,
and then it has sorted the files into the two lists. -/
lemma collectResults_ok_iff {dryRun raiseOnError : Bool} {run : PosixPath → FileRun}
    {call : PosixPath × String → ℕ → PutCall} {items : List (PosixPath × String)}
    {acc res : PutFilesResult} :
    collectResults (items.map fun item =>
        (uploadFile (call item) (run item.1).toUploadTimes item.2 item.1 dryRun
          raiseOnError).result (run item.1).attempts) acc = .ok res ↔
      (∀ item ∈ items, Settles raiseOnError (verdict dryRun (run item.1))) ∧
        res = ⟨acc.successfulFiles ++ items.filterMap (successOf dryRun run),
          acc.erroredFiles ++ items.filterMap (errorOf dryRun run)⟩ := by
  induction items generalizing acc with
  | nil =>
      obtain ⟨s, e⟩ := acc
      simp [collectResults, eq_comm]
  | cons item items ih =>
      rw [List.map_cons, uploadFile_result]
      cases hv : verdict dryRun (run item.1) with
      | ok eTag =>
          rw [collectResults, ih]
          simp [Settles, hv, successOf, errorOf]
      | error e =>
          cases hx : onUploadError raiseOnError item.1 e with
          | error x =>
              have hn : ¬ (raiseOnError = false ∧ e.text ≠ "") := by
                rintro ⟨hr, ht⟩
                obtain ⟨reason, hreason⟩ := extractErrorMessage_ok_iff.mpr ht
                rw [onUploadError_ok_iff.mpr ⟨hr, reason, hreason, rfl⟩] at hx
                cases hx
              simp only [hx, collectResults]
              simp [Settles, hv, hn]
          | ok r =>
              obtain ⟨hr, reason, hreason, rfl⟩ := onUploadError_ok_iff.mp hx
              have ht := extractErrorMessage_ok_iff.mp ⟨reason, hreason⟩
              simp only [hx, collectResults]
              rw [ih]
              simp [Settles, hv, hr, ht, successOf, errorOf, hreason]

/-- What comes behind a future that raised is not looked at. -/
lemma collectResults_append_of_error {l l' : List (Except PyError FileResult)}
    {acc : PutFilesResult} {e : PyError} (h : .error e ∈ l) :
    collectResults (l ++ l') acc = collectResults l acc := by
  induction l generalizing acc with
  | nil => cases h
  | cons r l ih =>
      rcases r with e' | (file | file)
      · rfl
      · exact ih (by simpa using h)
      · exact ih (by simpa using h)

lemma uploadMultipleFiles_result {client : S3Client} {uploads : Uploads} {operation : ℕ}
    {mapping : Dict PosixPath String} {raiseOnError : Bool} {chunkSize workers : ℤ}
    {dryRun : Bool} {run : PosixPath → FileRun} {completed : List (PosixPath × String)}
    (hw : 0 < workers) (hrun : uploads.run operation = run)
    (hcompleted : uploads.completed operation mapping.items = completed) :
    (uploadMultipleFiles client uploads operation mapping raiseOnError chunkSize workers
        dryRun).result =
      collectResults (completed.map fun item =>
        (uploadFile (putCall client operation chunkSize item) (run item.1).toUploadTimes item.2
          item.1 dryRun raiseOnError).result (run item.1).attempts) {} := by
  subst hrun hcompleted
  rw [uploadMultipleFiles, if_neg (not_le.mpr hw)]
  rfl

theorem uploadMultipleFiles_ok_iff {client : S3Client} {uploads : Uploads} {operation : ℕ}
    {mapping : Dict PosixPath String} {raiseOnError : Bool} {chunkSize workers : ℤ}
    {dryRun : Bool} {res : PutFilesResult} :
    (uploadMultipleFiles client uploads operation mapping raiseOnError chunkSize workers
        dryRun).result = .ok res ↔
      0 < workers ∧
      (∀ item ∈ mapping.items,
        Settles raiseOnError (verdict dryRun (uploads.run operation item.1))) ∧
      res = ⟨(uploads.completed operation mapping.items).filterMap
          (successOf dryRun (uploads.run operation)),
        (uploads.completed operation mapping.items).filterMap
          (errorOf dryRun (uploads.run operation))⟩ := by
  unfold uploadMultipleFiles
  by_cases hw : workers ≤ 0
  · simp [hw]
  · have hperm := uploads.completed_perm operation mapping.items
    rw [if_neg hw, Comp.bind_ok (Comp.emit_result _)]
    simp only [Comp.lift_result]
    rw [collectResults_ok_iff]
    simp [hperm.mem_iff, not_le.mp hw]

lemma mem_uploadMultipleFiles_events {client : S3Client} {uploads : Uploads} {operation : ℕ}
    {mapping : Dict PosixPath String} {raiseOnError : Bool} {chunkSize workers : ℤ}
    {dryRun : Bool} {item : PosixPath × String} {e : Event} (hw : 0 < workers)
    (hi : item ∈ mapping.items)
    (he : e ∈ putEvents ((uploadFile (putCall client operation chunkSize item)
      (uploads.run operation item.1).toUploadTimes item.2 item.1 dryRun raiseOnError).exchange
        (uploads.run operation item.1).attempts)) :
    e ∈ (uploadMultipleFiles client uploads operation mapping raiseOnError chunkSize workers
      dryRun).events := by
  rw [uploadMultipleFiles, if_neg (not_le.mpr hw)]
  exact Comp.mem_bind_left (List.mem_flatMap.mpr ⟨item, hi, he⟩)

lemma exists_of_mem_uploadMultipleFiles_events {client : S3Client} {uploads : Uploads}
    {operation : ℕ} {mapping : Dict PosixPath String} {raiseOnError : Bool}
    {chunkSize workers : ℤ} {dryRun : Bool} {e : Event}
    (h : e ∈ (uploadMultipleFiles client uploads operation mapping raiseOnError chunkSize workers
      dryRun).events) :
    ∃ item ∈ mapping.items, e ∈ putEvents ((uploadFile (putCall client operation chunkSize item)
      (uploads.run operation item.1).toUploadTimes item.2 item.1 dryRun raiseOnError).exchange
        (uploads.run operation item.1).attempts) := by
  unfold uploadMultipleFiles at h
  split_ifs at h
  · cases h
  · rcases Comp.mem_bind h with h | ⟨_, -, h⟩
    · exact List.mem_flatMap.mp h
    · cases h

lemma started_mem_uploadFile {client : S3Client} {operation : ℕ} {chunkSize : ℤ}
    {item : PosixPath × String} {times : UploadTimes} {dryRun raiseOnError : Bool}
    {attempts : ℕ → PutAttempt} {q : PutCall}
    (h : Event.started q ∈ putEvents ((uploadFile (putCall client operation chunkSize item) times
      item.2 item.1 dryRun raiseOnError).exchange attempts)) :
    q.operation = operation ∧ q.file = item.1 ∧ q.key = item.2 := by
  obtain ⟨a, ha⟩ := started_mem_putEvents.mp h
  obtain ⟨m, rfl⟩ := (leads_uploadFile_calls (leads_exchange _ attempts)).1 _ ha
  exact ⟨rfl, rfl, rfl⟩

lemma uploadMultipleFiles_events_nil {client : S3Client} {uploads : Uploads} {operation : ℕ}
    {mapping : Dict PosixPath String} {raiseOnError : Bool} {chunkSize workers : ℤ}
    {dryRun : Bool} (h : mapping.items = []) :
    (uploadMultipleFiles client uploads operation mapping raiseOnError chunkSize workers
      dryRun).events = [] := by
  unfold uploadMultipleFiles
  split_ifs
  · rfl
  · exact Comp.bind_events_eq_nil (by simp [h]) fun _ => rfl

end MarineDelivery.S3
