import MarineDelivery.Commit

/-!
What is in the bucket when the delivery is POSTed.

The bucket is read off the trace: every put that succeeds replaces what its key holds. Where
no key is given out twice in a call, all that is put to a key is put for one file of one
operation, and the manifest names what is there. Where one is, it may not.
-/

namespace MarineDelivery.Bucket

open MarineDelivery.PathLib MarineDelivery.PathLib.PosixPath MarineDelivery.Errors
open MarineDelivery.Common MarineDelivery.Domain MarineDelivery.Validation MarineDelivery.S3
open MarineDelivery.OrderedDict MarineDelivery.Traced MarineDelivery.Processes
open MarineDelivery.WorkerPool MarineDelivery.Core MarineDelivery.Calls MarineDelivery.Manifest
open MarineDelivery.Order MarineDelivery.Protocol MarineDelivery.Commit

/-! ### The bucket -/

/-- One event of a trace; a put that succeeds replaces the object under its key. -/
def store (bucket : String → Option (Option String)) : Event → String → Option (Option String)
  | .ended call (.success eTag) => Function.update bucket call.key (some eTag)
  | _ => bucket

def stored (events : List Event) : String → Option (Option String) :=
  events.foldl store fun _ => none

lemma stored_append_singleton (events : List Event) (e : Event) :
    stored (events ++ [e]) = store (stored events) e := by
  rw [stored, List.foldl_append]
  rfl

/-- An event that is no successful put to the key leaves it alone. -/
lemma store_of_ne {bucket : String → Option (Option String)} {e : Event} {key : String}
    (h : ∀ call eTag, e = .ended call (.success eTag) → call.key ≠ key) :
    store bucket e key = bucket key := by
  rcases e with call | ⟨call, eTag | text | text⟩ | d
  case ended.success => exact Function.update_of_ne (h call eTag rfl).symm _ _
  all_goals rfl

/-- Puts that agree: what all of them have put is there. -/
lemma stored_of_agree {events : List Event} {key : String} {eTag : Option String}
    (hput : ∃ call, Event.ended call (.success eTag) ∈ events ∧ call.key = key)
    (hagree : ∀ call t, Event.ended call (.success t) ∈ events → call.key = key → t = eTag) :
    stored events key = some eTag := by
  induction events using List.reverseRecOn with
  | nil =>
      obtain ⟨call, h, -⟩ := hput
      cases h
  | append_singleton events e ih =>
      rw [stored_append_singleton]
      by_cases he : ∃ call t, e = .ended call (.success t) ∧ call.key = key
      · obtain ⟨call, t, rfl, rfl⟩ := he
        rw [hagree call t (by simp) rfl]
        exact Function.update_self _ _ _
      · have hne : ∀ call t, e = .ended call (.success t) → call.key ≠ key :=
          fun call t h hk => he ⟨call, t, h, hk⟩
        rw [store_of_ne hne]
        refine ih ?_ fun call t h => hagree call t (List.mem_append_left _ h)
        obtain ⟨call, h, hk⟩ := hput
        rcases List.mem_append.mp h with h | h
        · exact ⟨call, h, hk⟩
        · exact absurd hk (hne call _ (List.mem_singleton.mp h).symm)

/-! ### The keys of a call -/

/-- The files of an operation and the keys they are put to. -/
def keysOf (did : String) (args : CallArgs) : RequestedOperation → List (PosixPath × String)
  | .delete _ => []
  | .upload u =>
    match getLocalPathS3KeysMapping u.files did args.productId args.datasetId u.anchor with
    | .ok keys => keys.items
    | .error _ => []

/-- No key is given out twice, in one operation or in two. -/
def KeysDistinct (did : String) (args : CallArgs) (operations : List RequestedOperation) :
    Prop :=
  ((operations.flatMap (keysOf did args)).map Prod.snd).Nodup

instance (did : String) (args : CallArgs) (operations : List RequestedOperation) :
    Decidable (KeysDistinct did args operations) :=
  inferInstanceAs (Decidable (List.Nodup _))

variable {args : CallArgs} {did : String}

lemma KeysDistinct.eq {operations : List RequestedOperation} {i j : ℕ}
    {op op' : RequestedOperation} {x y : PosixPath × String}
    (h : KeysDistinct did args operations) (hi : operations[i]? = some op)
    (hj : operations[j]? = some op') (hx : x ∈ keysOf did args op)
    (hy : y ∈ keysOf did args op') (hkey : x.2 = y.2) : i = j ∧ x = y := by
  rw [KeysDistinct, List.map_flatMap, List.nodup_flatMap, List.pairwise_iff_getElem] at h
  obtain ⟨hown, hother⟩ := h
  obtain ⟨hi', rfl⟩ := List.getElem?_eq_some_iff.mp hi
  obtain ⟨hj', rfl⟩ := List.getElem?_eq_some_iff.mp hj
  have hx' := List.mem_map_of_mem (f := Prod.snd) hx
  have hy' := List.mem_map_of_mem (f := Prod.snd) hy
  rcases lt_trichotomy i j with hlt | rfl | hlt
  · exact (hother i j hi' hj' hlt hx' (hkey ▸ hy')).elim
  · exact ⟨rfl, List.inj_on_of_nodup_map (hown _ (List.getElem_mem hi')) hx hy hkey⟩
  · exact (hother j i hj' hi' hlt hy' (hkey ▸ hx')).elim

lemma keysOf_upload {fs : FileSystem} {u : Upload} {op : ToUploadOperation}
    (h : createAndValidateToUploadOperation fs u.files args.datasetId args.productId u.anchor =
      .ok op) :
    keysOf did args (.upload u) =
      (ingestionKeys did args.productId args.datasetId u.anchor u.files).items := by
  have hvalid := (createAndValidateToUploadOperation_ok_iff.mp h).1
  have hkeys : getLocalPathS3KeysMapping u.files did args.productId args.datasetId u.anchor =
      .ok (ingestionKeys did args.productId args.datasetId u.anchor u.files) :=
    getLocalPathS3KeysMapping_ok_iff.mpr
      ⟨fun f hf => localPathToKeySuffix_of_valid (hvalid f hf), rfl⟩
  simp only [keysOf, hkeys]

/-! ### The puts of a file -/

/-- The calls made for a file of operation `n`, and how they have ended. -/
def fileLog (args : CallArgs) (session : Session) (uploads : Uploads) (n : ℕ)
    (item : PosixPath × String) : List (PutCall × PutAttempt) :=
  (uploadFile (putCall session.s3Client n args.chunkSizeBytes item)
    (uploads.run n item.1).toUploadTimes item.2 item.1 args.dryRun
      args.raiseOnUploadError).exchange (uploads.run n item.1).attempts

variable {session : Session} {uploads : Uploads} {n : ℕ} {fs : FileSystem}

lemma of_mem_fileLog {item : PosixPath × String} {q : PutCall} {a : PutAttempt}
    (h : (q, a) ∈ fileLog args session uploads n item) :
    q.operation = n ∧ q.file = item.1 ∧ q.key = item.2 :=
  started_mem_uploadFile (started_mem_putEvents.mpr ⟨a, h⟩)

lemma exists_fileLog {op : RequestedOperation} {p : PendingOperation} {q : PutCall}
    {a : PutAttempt} (hv : validateOperation fs args op = .ok p)
    (h : Event.ended q a ∈ (turn args session uploads n p).events) :
    ∃ item ∈ keysOf session.deliveryId args op, (q, a) ∈ fileLog args session uploads n item := by
  cases op with
  | delete requested =>
      obtain ⟨operation, -, he⟩ := bind_eq_ok.mp hv
      cases he
      cases h
  | upload requested =>
      obtain ⟨operation, hop, he⟩ := bind_eq_ok.mp hv
      cases he
      obtain ⟨-, -, -, hfiles⟩ := createAndValidateToUploadOperation_ok_iff.mp hop
      have hmap : operation.files.map (·.localPath) = requested.files := by
        rw [hfiles, map_localPath_fileToUpload]
      rw [turn_upload, Comp.bind_pure_events] at h
      obtain ⟨item, hitem, he⟩ := exists_of_mem_putFilesToIngestionSystem_events hmap h
      rw [anchor_of_created hop] at hitem
      exact ⟨item, keysOf_upload hop ▸ hitem, ended_mem_putEvents.mp he⟩

/-- An entry was made from a put of its own file, and all that was put for that file is the
same object. -/
def FromFile (args : CallArgs) (session : Session) (uploads : Uploads) (n : ℕ)
    (op : RequestedOperation) (file : String) (entry : UploadFile) : Prop :=
  ∃ item ∈ keysOf session.deliveryId args op, item.1 = ofString file ∧
    localPathToKeySuffix item.2 (some args.datasetId) = .ok entry.keySuffix.1 ∧
    ∃ call eTag, (call, .success (some eTag)) ∈ fileLog args session uploads n item ∧
      entry.checksum = stripQuotes eTag ∧
      ∀ q t, (q, PutAttempt.success t) ∈ fileLog args session uploads n item → t = some eTag

lemma turn_entries {requested : Upload} {op : ToUploadOperation} {posted : UploadOperation}
    {r : OperationResponse} (hdry : args.dryRun = false)
    (hop : createAndValidateToUploadOperation fs requested.files args.datasetId args.productId
      requested.anchor = .ok op)
    (h : (turn args session uploads n (.upload op)).result = .ok (.upload posted, r)) :
    ∃ listed : List String, listed.Sublist requested.files ∧
      List.Forall₂ (FromFile args session uploads n (.upload requested)) listed posted.files := by
  obtain ⟨-, -, -, hfiles⟩ := createAndValidateToUploadOperation_ok_iff.mp hop
  have hmap : op.files.map (·.localPath) = requested.files := by
    rw [hfiles, map_localPath_fileToUpload]
  rw [turn_upload, anchor_of_created hop] at h
  obtain ⟨⟨res, operation⟩, hput, he⟩ := Comp.bind_result_eq_ok.mp h
  cases he
  obtain ⟨-, -, -, -, -, -, hus⟩ := (putFilesToIngestionSystem_ok_iff hmap).mp hput
  refine ⟨_, List.filter_sublist, (entries_of_found fs (hfiles ▸ hus)).imp ?_⟩
  rintro f entry ⟨put, hown, hu⟩
  obtain ⟨-, key, hitem, hs⟩ := ownS3File_eq_some hown
  obtain ⟨checksum, hv, rfl⟩ := successOf_eq_some hs
  obtain ⟨hsuffix, hentry⟩ := manifestFile_ok_iff.mp hu
  rw [hdry] at hv
  obtain ⟨eTag, m, rfl, hm, hsame, -⟩ := exists_put_of_verdict session.s3Client n
    args.chunkSizeBytes (ofString f, key) args.raiseOnUploadError hv
  have hmem : (ofString f, key) ∈ keysOf session.deliveryId args (.upload requested) := by
    rw [keysOf_upload hop]
    exact hitem
  have hsum : entry.checksum = stripQuotes eTag := by rw [hentry]
  refine ⟨(ofString f, key), hmem, rfl, hsuffix,
    putCall session.s3Client n args.chunkSizeBytes (ofString f, key) m, eTag, ?_, hsum, ?_⟩
  · rwa [fileLog, hdry]
  · rwa [fileLog, hdry]

/-! ### The manifest and the bucket -/

/-- A put of the entry's own file has succeeded, for its operation, and the object under the
key of that put has the checksum of the entry. -/
def Kept (events : List Event) (i : ℕ) (ds : String) (file : String) (entry : UploadFile) :
    Prop :=
  ∃ call t, Event.ended call (.success t) ∈ events ∧ call.operation = i ∧
    call.file = ofString file ∧
    localPathToKeySuffix call.key (some ds) = .ok entry.keySuffix.1 ∧
    ∃ eTag, stored events call.key = some (some eTag) ∧ stripQuotes eTag = entry.checksum

/-- The entries of an operation of the manifest name what is in the bucket. -/
def ObjectsKept (events : List Event) (i : ℕ) (ds : String) :
    RequestedOperation → Operation → Prop
  | .upload requested, .upload posted =>
    ∃ listed : List String, listed.Sublist requested.files ∧
      List.Forall₂ (Kept events i ds) listed posted.files
  | .delete _, .delete _ => True
  | _, _ => False

variable {world : World} {times : ℕ → PosixPath → UploadTimes}
variable {pending : List PendingOperation} {processed : List (Operation × OperationResponse)}
variable {operations : List RequestedOperation} {pre : List Event}

/-- **An entry keeps its object**: what is put to its key is put for its own file. -/
lemma FromFile.kept {i : ℕ} {op : RequestedOperation} {file : String} {entry : UploadFile}
    (hkeys : KeysDistinct session.deliveryId args operations)
    (hpending : List.Forall₂ (fun op p => validateOperation fs args op = .ok p) operations
      pending)
    (hloop : LoopSoFar args session uploads pending processed pre)
    (hop : operations[i]? = some op)
    (hsub : ∀ item ∈ keysOf session.deliveryId args op,
      ∀ q a, (q, a) ∈ fileLog args session uploads i item → Event.ended q a ∈ pre)
    (h : FromFile args session uploads i op file entry) :
    Kept pre i args.datasetId file entry := by
  obtain ⟨item, hitem, hfile, hsuffix, call, eTag, hcall, hsum, hsame⟩ := h
  obtain ⟨hi, hf, hk⟩ := of_mem_fileLog hcall
  refine ⟨call, some eTag, hsub item hitem _ _ hcall, hi, hf.trans hfile, hk ▸ hsuffix, eTag,
    stored_of_agree ⟨call, hsub item hitem _ _ hcall, rfl⟩ fun q t hq hqk => ?_, hsum.symm⟩
  -- the put was made for a file of some operation, to the same key
  obtain ⟨j, p, hp, hq⟩ := Comp.mem_eachFrom_events ((hloop.mem_events _).mp hq)
  rw [Nat.zero_add] at hq
  obtain ⟨op', hop', hv⟩ := forall₂_getElem? hpending.flip hp
  obtain ⟨item', hitem', hlog⟩ := exists_fileLog hv hq
  obtain ⟨-, -, hk'⟩ := of_mem_fileLog hlog
  obtain ⟨rfl, rfl⟩ := hkeys.eq hop hop' hitem hitem' (by rw [← hk, ← hk', hqk])
  exact hsame q t hlog

lemma fileLog_subset {requested : Upload} {op : ToUploadOperation}
    {x : Operation × OperationResponse}
    (hop : createAndValidateToUploadOperation fs requested.files args.datasetId args.productId
      requested.anchor = .ok op)
    (h : (turn args session uploads n (.upload op)).result = .ok x) {item : PosixPath × String}
    (hitem : item ∈ keysOf session.deliveryId args (.upload requested)) {q : PutCall}
    {a : PutAttempt} (hlog : (q, a) ∈ fileLog args session uploads n item) :
    Event.ended q a ∈ (turn args session uploads n (.upload op)).events := by
  obtain ⟨-, -, -, hfiles⟩ := createAndValidateToUploadOperation_ok_iff.mp hop
  have hmap : op.files.map (·.localPath) = requested.files := by
    rw [hfiles, map_localPath_fileToUpload]
  rw [turn_upload, anchor_of_created hop] at h ⊢
  rw [Comp.bind_pure_events]
  obtain ⟨⟨res, operation⟩, hput, -⟩ := Comp.bind_result_eq_ok.mp h
  obtain ⟨hsuffix, hw, -⟩ := (putFilesToIngestionSystem_ok_iff hmap).mp hput
  rw [keysOf_upload hop] at hitem
  exact mem_putFilesToIngestionSystem_events hmap hsuffix hw hitem
    (ended_mem_putEvents.mpr hlog)

lemma objectsKept_of_turn {i : ℕ} {op : RequestedOperation} {p : PendingOperation}
    {x : Operation × OperationResponse} (hdry : args.dryRun = false)
    (hkeys : KeysDistinct session.deliveryId args operations)
    (hpending : List.Forall₂ (fun op p => validateOperation fs args op = .ok p) operations
      pending)
    (hloop : LoopSoFar args session uploads pending processed pre)
    (hop : operations[i]? = some op) (hv : validateOperation fs args op = .ok p)
    (hret : (turn args session uploads i p).result = .ok x)
    (hsub : ∀ e ∈ (turn args session uploads i p).events, e ∈ pre) :
    ObjectsKept pre i args.datasetId op x.1 := by
  obtain ⟨o, r⟩ := x
  have hkind := processOperation_corresponds hdry hv hret
  cases op with
  | delete requested =>
      cases o with
      | delete posted => trivial
      | upload posted => exact hkind
  | upload requested =>
      obtain ⟨operation, hcreated, he⟩ := bind_eq_ok.mp hv
      cases he
      cases o with
      | delete posted => exact hkind
      | upload posted =>
          obtain ⟨listed, hlisted, hentries⟩ := turn_entries hdry hcreated hret
          refine ⟨listed, hlisted, hentries.imp fun f entry hentry => ?_⟩
          exact hentry.kept hkeys hpending hloop hop fun item hitem q a hlog =>
            hsub _ (fileLog_subset hcreated hret hitem hlog)

/-- **What the manifest names is there**: in a call that gives no key out twice, in every run
and whatever the interleaving, the object under the key of every posted entry has the checksum
of the entry when the delivery is POSTed. -/
theorem objects_kept {request : Request} {labels : List Label} {s : State}
    (hdry : args.dryRun = false)
    (hkeys : KeysDistinct (newDeliveryId world args) args request.operations)
    (h : Reaches world args times request labels s) {d : Delivery} {post : List Event}
    (htrace : s.trace = pre ++ .posted d :: post) :
    d.operations.length = request.operations.length ∧
    ∀ i op o, request.operations[i]? = some op → d.operations[i]? = some o →
      ObjectsKept pre i args.datasetId op o := by
  obtain ⟨session, pending, hprep, hrun⟩ := h
  obtain ⟨uploads, processed, hloop, rfl, -⟩ := posted_split (inv_of_run hrun) htrace
  obtain ⟨hid, hpending⟩ := prepare_ok hprep
  rw [← hid] at hkeys
  refine ⟨?_, fun i op o hop ho => ?_⟩
  · simp [deliveryOf, createDelivery, hpending.length_eq, hloop.length_eq]
  · obtain ⟨p, hp, hv⟩ := forall₂_getElem? hpending hop
    obtain ⟨x, hx, hret, hsub⟩ := turn_of_loop hloop hp
    obtain rfl : x.1 = o := by
      simpa [deliveryOf, createDelivery, hx] using ho
    exact objectsKept_of_turn hdry hkeys hpending hloop hop hv hret hsub

theorem objects_kept_plain :
    ∃ s pre d post, Reaches (exampleWorld [("a.nc", 10)]) exampleArgs exampleTimes
        (.upload ["a.nc"] none) (.next :: putOnce exampleItem "t1" ++ [.close, .submit]) s ∧
      s.trace = pre ++ .posted d :: post ∧ d.operations.length = 1 ∧
      ∀ i op o, [RequestedOperation.upload ⟨["a.nc"], none⟩][i]? = some op →
        d.operations[i]? = some o → ObjectsKept pre i "dset" op o := by
  have hprep : (Request.upload ["a.nc"] none).prepare (exampleWorld [("a.nc", 10)]) exampleArgs =
      .ok (exampleSession [("a.nc", 10)],
        [.upload ⟨[fileToUpload (exampleWorld [("a.nc", 10)]).fileSystem "a.nc"], none⟩]) := by
    decide +kernel
  have hrun : (run (step (exampleWorld [("a.nc", 10)]) exampleArgs (exampleSession [("a.nc", 10)])
      exampleTimes) { todo := [.upload ⟨[fileToUpload (exampleWorld [("a.nc", 10)]).fileSystem
        "a.nc"], none⟩] }
      (.next :: putOnce exampleItem "t1" ++ [.close, .submit])).any
        (fun s => (s.trace.filterMap postedDelivery).length = 1) = true := by
    decide +kernel
  obtain ⟨s, hs, hposted⟩ := (Option.any_eq_true _ _).mp hrun
  obtain ⟨d, hd⟩ : ∃ d, Event.posted d ∈ s.trace := by
    have hne := List.length_pos_iff_exists_mem.mp ((of_decide_eq_true hposted).symm ▸ one_pos)
    obtain ⟨d, hd⟩ := hne
    obtain ⟨e, he, h⟩ := List.mem_filterMap.mp hd
    cases e <;> cases h
    exact ⟨d, he⟩
  obtain ⟨pre, post, htrace⟩ := List.append_of_mem hd
  have hreaches : Reaches (exampleWorld [("a.nc", 10)]) exampleArgs exampleTimes
      (.upload ["a.nc"] none) (.next :: putOnce exampleItem "t1" ++ [.close, .submit]) s :=
    ⟨_, _, hprep, hs⟩
  exact ⟨s, pre, d, post, hreaches, htrace,
    objects_kept rfl (by decide +kernel) hreaches htrace⟩

/-! ### Two files with one key -/

def twoFiles : List (String × ℕ) := [("d1/ds/x.nc", 10), ("d2/ds/x.nc", 10)]

def sharedKey : String :=
  ingestionKey (newDeliveryId (exampleWorld []) exampleArgs) "prod" "dset" (some "ds") "d1/ds/x.nc"

def sharedPut (file : String) : PutCall :=
  putCall exampleClient 0 exampleArgs.chunkSizeBytes (ofString file, sharedKey) 1

def sharedEntry (eTag : String) : UploadFile :=
  ⟨⟨"x.nc", by decide⟩, none, 0, eTag, some "10:00", some "10:01"⟩

def sharedTrace : List Event :=
  [.started (sharedPut "d1/ds/x.nc"), .ended (sharedPut "d1/ds/x.nc") (.success (some "t1")),
    .started (sharedPut "d2/ds/x.nc"), .ended (sharedPut "d2/ds/x.nc") (.success (some "t2"))]

def sharedDelivery : Delivery :=
  deliveryOf exampleArgs (exampleSession twoFiles)
    [.upload ⟨.upload, [sharedEntry "t1", sharedEntry "t2"]⟩]

/-- The second file replaces the first one, and the manifest names both. -/
theorem not_objects_kept_anchor :
    ∃ labels s, Reaches (exampleWorld twoFiles) exampleArgs exampleTimes
        (.upload ["d1/ds/x.nc", "d2/ds/x.nc"] (some "ds")) labels s ∧
      s.trace = sharedTrace ++ [.posted sharedDelivery] ∧
      ¬ ∀ i op o, [RequestedOperation.upload ⟨["d1/ds/x.nc", "d2/ds/x.nc"], some "ds"⟩][i]? =
          some op → sharedDelivery.operations[i]? = some o →
        ObjectsKept sharedTrace i "dset" op o := by
  have hprep : (Request.upload ["d1/ds/x.nc", "d2/ds/x.nc"] (some "ds")).prepare
      (exampleWorld twoFiles) exampleArgs = .ok (exampleSession twoFiles,
        [.upload ⟨["d1/ds/x.nc", "d2/ds/x.nc"].map
          (fileToUpload (exampleWorld twoFiles).fileSystem), some "ds"⟩]) := by
    decide +kernel
  have hrun : (run (step (exampleWorld twoFiles) exampleArgs (exampleSession twoFiles)
      exampleTimes) { todo := [.upload ⟨["d1/ds/x.nc", "d2/ds/x.nc"].map
        (fileToUpload (exampleWorld twoFiles).fileSystem), some "ds"⟩] }
      (.next :: putOnce (ofString "d1/ds/x.nc", sharedKey) "t1" ++
        putOnce (ofString "d2/ds/x.nc", sharedKey) "t2" ++ [.close, .submit])).any
        (fun s => s.trace = sharedTrace ++ [.posted sharedDelivery]) = true := by
    decide +kernel
  obtain ⟨s, hs, htrace⟩ := (Option.any_eq_true _ _).mp hrun
  refine ⟨_, s, ⟨_, _, hprep, hs⟩, of_decide_eq_true htrace, fun h => ?_⟩
  obtain ⟨listed, -, hentries⟩ := h 0 _ _ rfl rfl
  cases hentries with
  | cons hkept _ =>
      obtain ⟨call, t, hcall, -, -, -, eTag, hstored, hsum⟩ := hkept
      have hkey : call.key = sharedKey := by
        simp only [sharedTrace, List.mem_cons, Event.ended.injEq, reduceCtorEq, false_or,
          List.not_mem_nil, or_false] at hcall
        rcases hcall with ⟨rfl, -⟩ | ⟨rfl, -⟩ <;> rfl
      have hsecond : stored sharedTrace sharedKey = some (some "t2") := by decide +kernel
      rw [hkey, hsecond] at hstored
      cases hstored
      exact absurd hsum (by decide)

end MarineDelivery.Bucket
