import MarineDelivery.Order
import MarineDelivery.Protocol

/-!
The POST comes last.

In every run of a call there is at most one POST. When it is made all puts that have been
started have ended, none starts later, and every entry of the manifest has a put of its own
file behind it; a call in which an upload operation has no successful file, or in which a file
failed that may not fail, is never POSTed.
-/

namespace MarineDelivery.Commit

open MarineDelivery.PathLib MarineDelivery.PathLib.PosixPath MarineDelivery.Errors
open MarineDelivery.Common MarineDelivery.Domain MarineDelivery.Validation MarineDelivery.S3
open MarineDelivery.OrderedDict MarineDelivery.Traced MarineDelivery.Processes
open MarineDelivery.WorkerPool MarineDelivery.Core MarineDelivery.Calls MarineDelivery.Manifest
open MarineDelivery.Order MarineDelivery.Protocol

/-- A put of operation `i` has succeeded, with an `e_tag`. -/
def HasSuccess (events : List Event) (i : ℕ) : Prop :=
  ∃ call eTag, Event.ended call (.success (some eTag)) ∈ events ∧ call.operation = i

def NoFailure (events : List Event) : Prop :=
  ∀ call outcome, Event.ended call outcome ∈ events → outcome.fails call.attempt = false

/-- The entries of the manifest for operation `i` have puts of their own files behind them. -/
def Backed (events : List Event) (i : ℕ) (did pid ds : String) :
    RequestedOperation → Operation → Prop
  | .upload requested, .upload posted =>
    HasSuccess events i ∧ ∃ listed : List String, listed.Sublist requested.files ∧
      List.Forall₂ (FromPut events i did pid ds requested) listed posted.files
  | .delete _, .delete _ => True
  | _, _ => False

def postedDelivery : Event → Option Delivery
  | .posted d => some d
  | _ => none

/-- What is known of a POST, from the events before and after it. -/
structure Committed (args : CallArgs) (request : Request) (pre : List Event) (d : Delivery)
    (post : List Event) : Prop where
  ended : (startedCalls pre).Perm ((endedCalls pre).map Prod.fst)
  last : startedCalls post = []
  length_eq : d.operations.length = request.operations.length
  backed : ∀ i op o, request.operations[i]? = some op → d.operations[i]? = some o →
    Backed pre i d.deliveryId args.productId args.datasetId op o
  noFailure : args.raiseOnUploadError = true → NoFailure pre

/-! ### One operation -/

variable {args : CallArgs} {session : Session} {uploads : Uploads} {n : ℕ} {fs : FileSystem}

lemma turn_upload_ok {requested : Upload} {op : ToUploadOperation}
    {x : Operation × OperationResponse} (hdry : args.dryRun = false)
    (hop : createAndValidateToUploadOperation fs requested.files args.datasetId args.productId
      requested.anchor = .ok op)
    (h : (turn args session uploads n (.upload op)).result = .ok x) :
    HasSuccess (turn args session uploads n (.upload op)).events n ∧
      (args.raiseOnUploadError = true →
        NoFailure (turn args session uploads n (.upload op)).events) := by
  obtain ⟨hvalid, -, -, hfiles⟩ := createAndValidateToUploadOperation_ok_iff.mp hop
  have hmap : op.files.map (·.localPath) = requested.files := by
    rw [hfiles, map_localPath_fileToUpload]
  rw [turn_upload] at h ⊢
  rw [Comp.bind_pure_events]
  obtain ⟨⟨res, operation⟩, hput, -⟩ := Comp.bind_result_eq_ok.mp h
  obtain ⟨hsuffix, hw, hsettle, hsucc, -⟩ := (putFilesToIngestionSystem_ok_iff hmap).mp hput
  constructor
  · obtain ⟨s, hs⟩ := List.exists_mem_of_ne_nil _ hsucc
    obtain ⟨item, hitem, hsome⟩ := List.mem_filterMap.mp hs
    obtain ⟨checksum, hv, -⟩ := successOf_eq_some hsome
    rw [hdry] at hv
    obtain ⟨eTag, m, -, hm, -⟩ := exists_put_of_verdict session.s3Client n args.chunkSizeBytes item
      args.raiseOnUploadError hv
    refine ⟨putCall session.s3Client n args.chunkSizeBytes item m, eTag, ?_, rfl⟩
    exact mem_putFilesToIngestionSystem_events hmap hsuffix hw
      ((uploads.completed_perm _ _).mem_iff.mp hitem)
      (ended_mem_putEvents.mpr (by rwa [hdry]))
  · intro hraise call outcome hcall
    obtain ⟨item, hitem, he⟩ := exists_of_mem_putFilesToIngestionSystem_events hmap hcall
    have hset := hsettle item hitem
    rw [hdry, hraise] at hset
    cases hv : verdict false (uploads.run n item.1) with
    | error e =>
        rw [hv] at hset
        cases hset.1
    | ok checksum =>
        obtain ⟨-, -, -, -, -, hfine⟩ := exists_put_of_verdict session.s3Client n
          args.chunkSizeBytes item args.raiseOnUploadError hv
        rw [hdry] at he
        exact hfine _ (ended_mem_putEvents.mp he)

/-! ### The call -/

variable {world : World} {times : ℕ → PosixPath → UploadTimes}
variable {pending : List PendingOperation} {s : State}

/-- What is before a POST, and that nothing is behind it. -/
lemma posted_split (hinv : Inv world args session times pending s) {pre post : List Event}
    {d : Delivery} (h : s.trace = pre ++ .posted d :: post) :
    ∃ uploads processed, LoopSoFar args session uploads pending processed pre ∧
      d = deliveryOf args session (processed.map Prod.fst) ∧ post = [] := by
  have hmem : Event.posted d ∈ s.trace := by simp [h]
  cases hinv with
  | between hloop => exact absurd hmem (hloop.not_posted d)
  | failed _ _ hposted => exact absurd hmem (hposted d)
  | uploading hloop =>
      exact absurd (List.mem_append.mp hmem)
        (not_or.mpr ⟨hloop.not_posted d, posted_notMem_map_eventOf _ d⟩)
  | @submitted uploads processed events hloop =>
      have hno := hloop.not_posted d
      have htrace : events ++ (submit world args session.config
          (deliveryOf args session (processed.map Prod.fst))).events =
          pre ++ .posted d :: post := h
      rcases submit_events world args session.config
        (deliveryOf args session (processed.map Prod.fst)) with hs | hs
      · rw [hs, List.append_nil] at htrace
        exact absurd (htrace ▸ by simp) hno
      · rw [hs] at htrace
        rcases List.append_eq_append_iff.mp htrace with ⟨l, rfl, hl⟩ | ⟨l, rfl, hl⟩
        · rcases l with _ | ⟨e, l⟩
          · rw [List.nil_append] at hl
            cases hl
            exact ⟨uploads, processed, by rwa [List.append_nil], rfl, rfl⟩
          · simpa using congrArg List.length hl
        · rcases l with _ | ⟨e, l⟩
          · rw [List.nil_append] at hl
            cases hl
            exact ⟨uploads, processed, by rwa [List.append_nil] at hloop, rfl, rfl⟩
          · obtain ⟨rfl, -⟩ := List.cons.inj hl
            exact absurd (by simp) hno

lemma length_posted_le_one (hinv : Inv world args session times pending s) :
    (s.trace.filterMap postedDelivery).length ≤ 1 := by
  by_cases hmem : ∃ d, Event.posted d ∈ s.trace
  · obtain ⟨d, hd⟩ := hmem
    obtain ⟨pre, post, htrace⟩ := List.append_of_mem hd
    obtain ⟨_, _, hloop, -, rfl⟩ := posted_split hinv htrace
    have hpre : pre.filterMap postedDelivery = [] := by
      refine List.filterMap_eq_nil_iff.mpr fun e he => ?_
      cases e with
      | posted d' => exact absurd he (hloop.not_posted d')
      | started q | ended q a => rfl
    rw [htrace, List.filterMap_append, hpre]
    rfl
  · have hnone : s.trace.filterMap postedDelivery = [] := by
      refine List.filterMap_eq_nil_iff.mpr fun e he => ?_
      cases e with
      | posted d' => exact absurd ⟨d', he⟩ hmem
      | started q | ended q a => rfl
    rw [hnone]
    exact Nat.zero_le 1

lemma turn_of_loop {processed : List (Operation × OperationResponse)} {events : List Event}
    (h : LoopSoFar args session uploads pending processed events) {i : ℕ}
    {p : PendingOperation} (hp : pending[i]? = some p) :
    ∃ x, processed[i]? = some x ∧ (turn args session uploads i p).result = .ok x ∧
      ∀ e ∈ (turn args session uploads i p).events, e ∈ events := by
  obtain ⟨hlen, hbody⟩ := Comp.eachFrom_result_ok.mp h.result
  have hi : i < processed.length := hlen ▸ (List.getElem?_eq_some_iff.mp hp).1
  have hret := hbody i p _ hp (List.getElem?_eq_getElem hi)
  rw [Nat.zero_add] at hret
  refine ⟨_, List.getElem?_eq_getElem hi, hret, fun e he => (h.mem_events e).mpr ?_⟩
  exact Comp.mem_eachFrom_of_body h.result hp (by rwa [Nat.zero_add])

lemma backed_of_turn {op : RequestedOperation} {p : PendingOperation}
    {x : Operation × OperationResponse} {i : ℕ} {events : List Event}
    (hdry : args.dryRun = false) (hv : validateOperation fs args op = .ok p)
    (hret : (turn args session uploads i p).result = .ok x)
    (hsub : ∀ e ∈ (turn args session uploads i p).events, e ∈ events) :
    Backed events i session.deliveryId args.productId args.datasetId op x.1 := by
  obtain ⟨o, r⟩ := x
  have hc := (processOperation_corresponds hdry hv hret).mono hsub
  cases op with
  | delete requested =>
      cases o with
      | delete posted => trivial
      | upload posted => exact hc
  | upload requested =>
      obtain ⟨operation, hop, he⟩ := bind_eq_ok.mp hv
      cases he
      obtain ⟨⟨call, eTag, hcall, hn⟩, -⟩ := turn_upload_ok hdry hop hret
      cases o with
      | delete posted => exact hc
      | upload posted =>
          cases r with
          | delete response => exact hc.elim
          | upload response => exact ⟨⟨call, eTag, hsub _ hcall, hn⟩, hc.2⟩

lemma noFailure_of_turn {op : RequestedOperation} {p : PendingOperation}
    {x : Operation × OperationResponse} {i : ℕ} (hdry : args.dryRun = false)
    (hraise : args.raiseOnUploadError = true) (hv : validateOperation fs args op = .ok p)
    (hret : (turn args session uploads i p).result = .ok x) :
    NoFailure (turn args session uploads i p).events := by
  cases op with
  | delete requested =>
      obtain ⟨operation, -, he⟩ := bind_eq_ok.mp hv
      cases he
      exact fun _ _ h => by cases h
  | upload requested =>
      obtain ⟨operation, hop, he⟩ := bind_eq_ok.mp hv
      cases he
      exact (turn_upload_ok hdry hop hret).2 hraise

/-- **The POST comes last**: in every state of every run of a call there is at most one POST.
Before it every put that has been started has ended, after it none starts; every upload
operation has a successful file, every entry of the manifest the `e_tag` of a put of its own
file; and where no file may fail, none has. -/
theorem commit_last {request : Request} {labels : List Label} (hdry : args.dryRun = false)
    (h : Reaches world args times request labels s) :
    (s.trace.filterMap postedDelivery).length ≤ 1 ∧
    ∀ pre d post, s.trace = pre ++ .posted d :: post → Committed args request pre d post := by
  obtain ⟨session, pending, hprep, hrun⟩ := h
  have hinv := inv_of_run hrun
  refine ⟨length_posted_le_one hinv, fun pre d post htrace => ?_⟩
  obtain ⟨uploads, processed, hloop, rfl, rfl⟩ := posted_split hinv htrace
  obtain ⟨-, hpending⟩ := prepare_ok hprep
  refine ⟨hloop.balanced, rfl, ?_, fun i op o hop ho => ?_, fun hraise call outcome hcall => ?_⟩
  · simp [deliveryOf, createDelivery, hpending.length_eq, hloop.length_eq]
  · obtain ⟨p, hp, hv⟩ := forall₂_getElem? hpending hop
    obtain ⟨x, hx, hret, hsub⟩ := turn_of_loop hloop hp
    obtain rfl : x.1 = o := by
      simpa [deliveryOf, createDelivery, hx] using ho
    exact backed_of_turn hdry hv hret hsub
  · obtain ⟨i, p, hp, hcall⟩ := Comp.mem_eachFrom_events ((hloop.mem_events _).mp hcall)
    rw [Nat.zero_add] at hcall
    obtain ⟨x, -, hret, -⟩ := turn_of_loop hloop hp
    obtain ⟨op, hop, hv⟩ := forall₂_right hpending (List.mem_of_getElem? hp)
    exact noFailure_of_turn hdry hraise hv hret call outcome hcall

def exampleItem : PosixPath × String :=
  (ofString "a.nc", ingestionKey (newDeliveryId (exampleWorld []) exampleArgs) "prod" "dset"
    none "a.nc")

theorem commit_last_plain :
    ∃ s, Reaches (exampleWorld [("a.nc", 10)]) exampleArgs exampleTimes
        (.upload ["a.nc"] none) (.next :: putOnce exampleItem "t1" ++ [.close, .submit]) s ∧
      (s.trace.filterMap postedDelivery).length ≤ 1 ∧
      ∀ pre d post, s.trace = pre ++ .posted d :: post →
        Committed exampleArgs (.upload ["a.nc"] none) pre d post := by
  have hprep : (Request.upload ["a.nc"] none).prepare (exampleWorld [("a.nc", 10)]) exampleArgs =
      .ok (exampleSession [("a.nc", 10)],
        [.upload ⟨[fileToUpload (exampleWorld [("a.nc", 10)]).fileSystem "a.nc"], none⟩]) := by
    decide +kernel
  have hrun : (run (step (exampleWorld [("a.nc", 10)]) exampleArgs (exampleSession [("a.nc", 10)])
      exampleTimes) { todo := [.upload ⟨[fileToUpload (exampleWorld [("a.nc", 10)]).fileSystem
        "a.nc"], none⟩] }
      (.next :: putOnce exampleItem "t1" ++ [.close, .submit])).isSome = true := by
    decide +kernel
  obtain ⟨s, hs⟩ := Option.isSome_iff_exists.mp hrun
  have hreaches : Reaches (exampleWorld [("a.nc", 10)]) exampleArgs exampleTimes
      (.upload ["a.nc"] none) (.next :: putOnce exampleItem "t1" ++ [.close, .submit]) s :=
    ⟨_, _, hprep, hs⟩
  exact ⟨s, hreaches, commit_last rfl hreaches⟩

end MarineDelivery.Commit
