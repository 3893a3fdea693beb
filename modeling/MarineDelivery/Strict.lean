import MarineDelivery.Adequacy
import MarineDelivery.Stops

/-!
What `raise_on_upload_error` changes.

A call that must not lose a file stops after the first operation in which one fails, where the
other one skips the file and goes on. Until then both do the same: each operation stops early
by what its files are, and the loop over the operations, the POST behind it, and the machine
with its workers follow.
-/

namespace MarineDelivery.Strict

open MarineDelivery.PathLib MarineDelivery.Errors MarineDelivery.Common MarineDelivery.Domain
open MarineDelivery.Validation MarineDelivery.S3 MarineDelivery.OrderedDict
open MarineDelivery.Traced MarineDelivery.Processes MarineDelivery.Core MarineDelivery.Calls
open MarineDelivery.Manifest MarineDelivery.Protocol MarineDelivery.Adequacy
open MarineDelivery.Stops

/-- The arguments, with this value of `raise_on_upload_error`. -/
def raising (args : CallArgs) (raiseOnUploadError : Bool) : CallArgs :=
  { args with raiseOnUploadError := raiseOnUploadError }

/-- The files of an operation that were skipped. -/
def filesFailed : OperationResponse → List ErrorFile
  | .upload r => r.filesFailed
  | .delete _ => []

/-- No file was skipped in what a call returns. -/
def NoneFailed (y : List OperationResponse × Delivery) : Prop :=
  ∀ r ∈ y.1, filesFailed r = []

variable {client : S3Client} {uploads : Uploads} {n : ℕ} {keys : Dict PosixPath String}
variable {chunkSize workers : ℤ} {dryRun : Bool} {args : CallArgs}

/-! ### The files of an operation -/

lemma settles_iff {v : Except PutFailure String} :
    Settles true v ↔ Settles false v ∧ ∃ eTag, v = .ok eTag := by
  cases v with
  | ok eTag => simp [Settles]
  | error e => simp [Settles]

/-- No file is listed as failed exactly if every put has succeeded. -/
lemma filterMap_errorOf_eq_nil_iff {run : PosixPath → FileRun}
    {items : List (PosixPath × String)}
    (h : ∀ item ∈ items, Settles false (verdict dryRun (run item.1))) :
    items.filterMap (errorOf dryRun run) = [] ↔
      ∀ item ∈ items, ∃ eTag, verdict dryRun (run item.1) = .ok eTag := by
  rw [List.filterMap_eq_nil_iff]
  refine forall₂_congr fun item hitem => ?_
  have hsettles := h item hitem
  cases hv : verdict dryRun (run item.1) with
  | ok eTag => simp [errorOf, hv]
  | error e =>
      rw [hv] at hsettles
      obtain ⟨reason, hreason⟩ := extractErrorMessage_ok_iff.mpr hsettles.2
      simp [errorOf, hv, hreason]

/-- What is asked for a file does not depend on the flag. -/
lemma exchange_uploadFile (call : ℕ → PutCall) (times : UploadTimes) (key : String)
    (file : PosixPath) (dryRun raiseOnError : Bool) (answers : ℕ → PutAttempt) :
    (uploadFile call times key file dryRun raiseOnError).exchange answers =
      (uploadFile call times key file dryRun false).exchange answers := by
  cases dryRun with
  | true => rfl
  | false => exact (Process.exchange_map _ _ _).trans (Process.exchange_map _ _ _).symm

lemma uploadMultipleFiles_events_raising (raiseOnError : Bool) :
    (uploadMultipleFiles client uploads n keys raiseOnError chunkSize workers dryRun).events =
      (uploadMultipleFiles client uploads n keys false chunkSize workers dryRun).events := by
  unfold uploadMultipleFiles
  split_ifs with hw
  · rfl
  · dsimp only
    rw [Comp.bind_events_left fun _ => rfl, Comp.bind_events_left fun _ => rfl]
    simp only [Comp.emit_events, exchange_uploadFile _ _ _ _ _ raiseOnError]

/-- An operation that raises returns what the other one returns, if no file has failed. -/
lemma uploadMultipleFiles_raising_ok_iff {res : PutFilesResult} :
    (uploadMultipleFiles client uploads n keys true chunkSize workers dryRun).result = .ok res ↔
      (uploadMultipleFiles client uploads n keys false chunkSize workers dryRun).result =
        .ok res ∧ res.erroredFiles = [] := by
  have hmem : ∀ {item}, item ∈ uploads.completed n keys.items ↔ item ∈ keys.items :=
    (uploads.completed_perm n keys.items).mem_iff
  rw [uploadMultipleFiles_ok_iff, uploadMultipleFiles_ok_iff]
  constructor
  · rintro ⟨hw, hall, rfl⟩
    have hsettles := fun item hitem => (settles_iff.mp (hall item hitem)).1
    refine ⟨⟨hw, hsettles, rfl⟩, (filterMap_errorOf_eq_nil_iff fun item hitem => ?_).mpr ?_⟩
    · exact hsettles item (hmem.mp hitem)
    · exact fun item hitem => (settles_iff.mp (hall item (hmem.mp hitem))).2
  · rintro ⟨⟨hw, hall, rfl⟩, hnone⟩
    have hok := (filterMap_errorOf_eq_nil_iff fun item hitem => hall item (hmem.mp hitem)).mp
      hnone
    exact ⟨hw, fun item hitem => settles_iff.mpr ⟨hall item hitem, hok item (hmem.mpr hitem)⟩,
      rfl⟩

lemma uploadMultipleFiles_stopsEarly :
    StopsEarly (fun res : PutFilesResult => res.erroredFiles = [])
      (uploadMultipleFiles client uploads n keys true chunkSize workers dryRun)
      (uploadMultipleFiles client uploads n keys false chunkSize workers dryRun) := by
  have hevents := @uploadMultipleFiles_events_raising client uploads n keys chunkSize workers
    dryRun true
  refine ⟨fun res h => ?_, fun res h hnone => ?_, hevents ▸ List.prefix_refl _⟩
  · obtain ⟨h', hnone⟩ := uploadMultipleFiles_raising_ok_iff.mp h
    exact ⟨Comp.ext hevents (h.trans h'.symm), hnone⟩
  · exact Comp.ext hevents ((uploadMultipleFiles_raising_ok_iff.mpr ⟨h, hnone⟩).trans h.symm)

/-! ### The operations of a call -/

lemma concludeUploads_fst {op : ToUploadOperation} {ds : String} {res : PutFilesResult}
    {x : PutFilesResult × UploadOperation} (h : concludeUploads op ds res = .ok x) :
    x.1 = res := by
  unfold concludeUploads at h
  split_ifs at h
  obtain ⟨operation, -, he⟩ := bind_eq_ok.mp h
  cases he
  rfl

lemma putFilesToIngestionSystem_stopsEarly (did : String) (anchor : Option String)
    (op : ToUploadOperation) :
    StopsEarly (fun x : PutFilesResult × UploadOperation => x.1.erroredFiles = [])
      (putFilesToIngestionSystem uploads n client did (raising args true) anchor op)
      (putFilesToIngestionSystem uploads n client did (raising args false) anchor op) := by
  refine .lift_bind _ fun keys => uploadMultipleFiles_stopsEarly.bind (fun res hres => ?_) ?_
  · exact .refl fun x hx => (concludeUploads_fst hx).symm ▸ hres
  · exact fun res x hx hgood => concludeUploads_fst hx ▸ hgood

lemma processOperation_stopsEarly (pe did : String) (p : PendingOperation) :
    StopsEarly (fun x : Operation × OperationResponse => filesFailed x.2 = [])
      (processOperation uploads client pe did (raising args true) n p)
      (processOperation uploads client pe did (raising args false) n p) := by
  cases p with
  | delete op =>
      refine .refl fun x hx => ?_
      cases hx
      rfl
  | upload op =>
      refine (putFilesToIngestionSystem_stopsEarly did op.anchor op).bind (fun x hx => ?_) ?_
      · refine .refl fun y hy => ?_
        cases hy
        exact hx
      · intro x y hy hgood
        cases hy
        exact hgood

/-! ### The call -/

variable {world : World} {session : Session} {pending : List PendingOperation}

lemma loop_stopsEarly (session : Session) (uploads : Uploads) (pending : List PendingOperation) :
    StopsEarly (fun bs : List (Operation × OperationResponse) =>
        ∀ b ∈ bs, filesFailed b.2 = [])
      (loop (raising args true) session uploads pending)
      (loop (raising args false) session uploads pending) :=
  .eachFrom (fun _ p _ => processOperation_stopsEarly _ _ p) 0

lemma noneFailed_map {processed : List (Operation × OperationResponse)} {d : Delivery} :
    NoneFailed (processed.map Prod.snd, d) ↔ ∀ b ∈ processed, filesFailed b.2 = [] :=
  List.forall_mem_map

lemma runPending_stopsEarly (world : World) (session : Session) (uploads : Uploads)
    (pending : List PendingOperation) :
    StopsEarly NoneFailed (runPending world uploads (raising args true) session pending)
      (runPending world uploads (raising args false) session pending) := by
  refine (loop_stopsEarly session uploads pending).bind (fun processed hnone => ?_) ?_
  · refine .refl fun y hy => ?_
    obtain ⟨_, -, he⟩ := Comp.bind_result_eq_ok.mp hy
    cases he
    exact noneFailed_map.mpr hnone
  · intro processed y hy hgood
    obtain ⟨_, -, he⟩ := Comp.bind_result_eq_ok.mp hy
    cases he
    exact noneFailed_map.mp hgood

variable {request : Request}

lemma prepare_raising (b : Bool) :
    request.prepare world (raising args b) = request.prepare world args := by
  cases request <;> rfl

/-- **A call that raises does what the other one does**, until a file fails. -/
lemma call_stopsEarly (world : World) (uploads : Uploads) (args : CallArgs) (request : Request) :
    StopsEarly NoneFailed (request.call world uploads (raising args true))
      (request.call world uploads (raising args false)) := by
  rw [Request.call_eq, Request.call_eq, prepare_raising, prepare_raising]
  exact .lift_bind _ fun x => runPending_stopsEarly world x.1 uploads x.2

/-- A call that has met a file that fails POSTs nothing. -/
lemma unposted_of_failed {y : List OperationResponse × Delivery}
    (hskips : (request.call world uploads (raising args false)).result = .ok y)
    (hfailed : ¬ NoneFailed y) (d : Delivery) :
    Event.posted d ∉ (request.call world uploads (raising args true)).events := by
  intro hposted
  rw [Request.call_eq, prepare_raising] at hskips hposted
  obtain ⟨x, hprep, hrun⟩ := Comp.bind_result_eq_ok.mp hskips
  rw [Comp.lift_result] at hprep
  rw [hprep, Comp.lift_ok_bind] at hposted
  rcases Comp.mem_bind hposted with h | ⟨processed, hloop, -⟩
  · obtain ⟨i, p, -, h⟩ := Comp.mem_eachFrom_events h
    exact posted_notMem_processOperation h
  · obtain ⟨hsame, hnone⟩ := (loop_stopsEarly x.1 uploads x.2).returned processed hloop
    obtain ⟨processed', hloop', hresponses, -⟩ := runPending_ok _ _ _ hrun
    have hprocessed : processed = processed' :=
      Except.ok.inj ((congrArg Comp.result hsame ▸ hloop).symm.trans hloop')
    refine hfailed fun r hr => ?_
    rw [hresponses, ← hprocessed] at hr
    obtain ⟨b, hb, rfl⟩ := List.mem_map.mp hr
    exact hnone b hb

/-! ### The machine -/

/-- How a call that raises and one that skips the files that fail can end. `skipped` is about the
ends of the one that skips in which it returns; it can also raise after it has skipped a file. -/
structure RaisesOrSkips (world : World) (args : CallArgs) (request : Request) : Prop where
  returned : ∀ y effects, (.ok y, effects) ∈ machineEnds world (raising args true) request ↔
    (.ok y, effects) ∈ machineEnds world (raising args false) request ∧ NoneFailed y
  raised : ∀ e effects, (.error e, effects) ∈ machineEnds world (raising args true) request →
    ∃ result effects', (result, effects') ∈ machineEnds world (raising args false) request ∧
      effects ⊆ effects' ∧ ∀ y, result = .ok y → ¬ NoneFailed y
  skipped : ∀ y effects, (.ok y, effects) ∈ machineEnds world (raising args false) request →
    ¬ NoneFailed y → ∃ e effects', (.error e, effects') ∈
      machineEnds world (raising args true) request ∧ effects' ⊆ effects ∧
        ∀ d, Event.posted d ∉ effects'

/-- **A call that raises is one that skips, as long as no file fails**: they return the same,
after the same effects, where nothing was skipped. Where the one raises, all it has done the
other one can do, too; where the other one skips a file, the one can raise, after some of the
effects and without a POST. -/
theorem raises_or_skips (world : World) (args : CallArgs) (request : Request) :
    RaisesOrSkips world args request := by
  have hstops := fun uploads => call_stopsEarly world uploads args request
  refine ⟨fun y effects => ?_, fun e effects h => ?_, fun y effects h hfailed => ?_⟩
  · rw [mem_machineEnds_iff, mem_machineEnds_iff, prepare_raising, prepare_raising]
    constructor
    · rintro ⟨hprep, uploads, hresult, heffects⟩
      obtain ⟨hsame, hnone⟩ := (hstops uploads).returned y hresult
      rw [hsame] at hresult heffects
      exact ⟨⟨hprep, uploads, hresult, heffects⟩, hnone⟩
    · rintro ⟨⟨hprep, uploads, hresult, heffects⟩, hnone⟩
      have hsame := (hstops uploads).good y hresult hnone
      rw [← hsame] at hresult heffects
      exact ⟨hprep, uploads, hresult, heffects⟩
  · rw [mem_machineEnds_iff, prepare_raising] at h
    obtain ⟨hprep, uploads, hresult, heffects⟩ := h
    refine ⟨_, {e | e ∈ (request.call world uploads (raising args false)).events},
      mem_machineEnds_iff.mpr ⟨by rwa [prepare_raising], uploads, rfl, fun e => Iff.rfl⟩, ?_, ?_⟩
    · exact fun e he => (hstops uploads).events.subset ((heffects e).mp he)
    · intro y hy hnone
      rw [(hstops uploads).good y hy hnone] at hresult
      cases hresult.symm.trans hy
  · rw [mem_machineEnds_iff, prepare_raising] at h
    obtain ⟨hprep, uploads, hresult, heffects⟩ := h
    cases hraising : (request.call world uploads (raising args true)).result with
    | ok y' =>
        obtain ⟨hsame, hnone⟩ := (hstops uploads).returned y' hraising
        rw [hsame, hresult] at hraising
        cases hraising
        exact absurd hnone hfailed
    | error e =>
        refine ⟨e, {e | e ∈ (request.call world uploads (raising args true)).events},
          mem_machineEnds_iff.mpr ⟨by rwa [prepare_raising], uploads, hraising,
            fun e => Iff.rfl⟩, ?_, ?_⟩
        · exact fun e he => (heffects e).mpr ((hstops uploads).events.subset he)
        · exact fun d => unposted_of_failed hresult hfailed d

end MarineDelivery.Strict
