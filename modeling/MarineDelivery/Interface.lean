import MarineDelivery.Agreement
import MarineDelivery.Manifest

/-!
The Python interface: `submit` of an upload, of a delete and of a delivery.

An anchor can be given in two places, in the operation and to `submit`. The `submit` of an
upload looks at the second only, the `submit` of a delivery at the first only.
-/

namespace MarineDelivery.Interface

open MarineDelivery.PathLib MarineDelivery.PathLib.PosixPath MarineDelivery.Errors
open MarineDelivery.Common hiding Delivery
open MarineDelivery.Domain MarineDelivery.Validation MarineDelivery.S3
open MarineDelivery.OrderedDict MarineDelivery.Traced MarineDelivery.Processes
open MarineDelivery.Core MarineDelivery.Calls MarineDelivery.Manifest MarineDelivery.Agreement

/-! ### The methods -/

def megabytesToBytes (megabytes : ℤ) : ℤ := megabytes * 1024 * 1024

def maxConcurrentUploads : ℤ := 5
def chunkConcurrency : ℤ := 6
def defaultChunkSizeMb : ℤ := 16

/-- The arguments of `submit`; `pushing_entity_id` is one of its `kwargs`. -/
structure SubmitArgs where
  productId : String
  datasetId : String
  anchor : Option String := none
  raiseOnUploadError : Bool := false
  maxConcurrentUploads : ℤ := Interface.maxConcurrentUploads
  chunkSizeMb : ℤ := defaultChunkSizeMb
  chunkConcurrency : ℤ := Interface.chunkConcurrency
  dryRun : Bool := false
  pushingEntityId : Option String := none

/-- What is handed on; `env` is the pushing entity of the environment. -/
def SubmitArgs.callArgs (env : Option String) (a : SubmitArgs) : CallArgs where
  productId := a.productId
  datasetId := a.datasetId
  raiseOnUploadError := a.raiseOnUploadError
  maxConcurrentUploads := a.maxConcurrentUploads
  chunkSizeBytes := megabytesToBytes a.chunkSizeMb
  chunkConcurrency := a.chunkConcurrency
  dryRun := a.dryRun
  onBehalfOf := (truthy a.pushingEntityId).orElse fun _ => env

structure Delivery where
  operations : List RequestedOperation := []

variable (world : World) (uploads : Uploads) (env : Option String)

def Upload.submit (self : Upload) (a : SubmitArgs) : Comp Event PyError ResponseUpload :=
  if self.files = [] then pure { fatalError := "No files added to upload." }
  else do
    let (response, _) ← upload world uploads (a.callArgs env) self.files a.anchor
    return response

def Delete.submit (self : Delete) (productId datasetId : String) (dryRun : Bool)
    (pushingEntityId : Option String) : Comp Event PyError ResponseDelete :=
  if self.files = [] then pure { fatalError := "No files added to delete." }
  else do
    let (response, _) ← delete world
      (SubmitArgs.callArgs env { productId, datasetId, dryRun, pushingEntityId }) self.files
    return response

def Delivery.submit (self : Delivery) (a : SubmitArgs) : Comp Event PyError ResponseDelivery :=
  if self.operations = [] then pure { fatalError := "No operations added to delivery." }
  else do
    let (response, _) ← delivery world uploads (a.callArgs env) self.operations
    return response

/-! ### Agreement of two calls -/

def Raises {ρ : Type} (call : Comp Event PyError ρ) : Prop := ∃ e, call.result = .error e

def Returns {ρ : Type} (call : Comp Event PyError ρ) : Prop := ∃ r, call.result = .ok r

/-- A call of `put` for the file under the key. -/
def PutTo (events : List Event) (file : PosixPath) (key : String) : Prop :=
  ∃ call, Event.started call ∈ events ∧ call.file = file ∧ call.key = key

/-- The key of a call of `put` that has been started. -/
def putKey : Event → Option String
  | .started call => some call.key
  | _ => none

/-- Both calls return, with the same puts and the same POST, or both raise. -/
def CallsAgree {ρ σ : Type} (x : Comp Event PyError ρ) (y : Comp Event PyError σ) : Prop :=
  (Returns x ∧ Returns y ∧
    (∀ file key, PutTo x.events file key ↔ PutTo y.events file key) ∧
    ∀ d, Event.posted d ∈ x.events ↔ Event.posted d ∈ y.events) ∨
  Raises x ∧ Raises y

/-- What it takes for an upload to return: its input is accepted, no future raises and one
file at least is put, the manifest takes the keys of the files, and the POST succeeds. -/
def Completes (args : CallArgs) (files : List String) (anchor : Option String) : Prop :=
  ∃ session op entries, prepareUpload world args files anchor = .ok (session, op) ∧
    0 < args.maxConcurrentUploads ∧
    (∀ f ∈ files, Settles args.raiseOnUploadError
      (verdict args.dryRun (uploads.run 0 (ofString f)))) ∧
    (∃ f ∈ files, ∃ eTag, verdict args.dryRun (uploads.run 0 (ofString f)) = .ok eTag) ∧
    List.Forall₂ (fun x entry => manifestFile args.datasetId x.1 x.2 = .ok entry)
      (foundFiles args.dryRun (uploads.run 0) (ingestionKeys (newDeliveryId world args)
        args.productId args.datasetId anchor files) op) entries ∧
    (submit world args session.config
      (deliveryOf args session [.upload ⟨.upload, entries⟩])).result = .ok ()

variable {world uploads env}

lemma PutTo.key_mem {events : List Event} {file : PosixPath} {key : String}
    (h : PutTo events file key) : key ∈ events.filterMap putKey := by
  obtain ⟨call, hcall, -, rfl⟩ := h
  exact List.mem_filterMap.mpr ⟨_, hcall, rfl⟩

lemma returns_bind_pure {α β : Type} {x : Comp Event PyError α} {f : α → β} :
    Returns (x >>= fun a => pure (f a)) ↔ Returns x := by
  rw [Returns, Returns, Comp.bind_pure_result]
  cases x.result <;> simp [Except.map]

lemma raises_bind_pure {α β : Type} {x : Comp Event PyError α} {f : α → β} :
    Raises (x >>= fun a => pure (f a)) ↔ Raises x := by
  rw [Raises, Raises, Comp.bind_pure_result]
  cases x.result <;> simp [Except.map]

lemma raises_iff_not_returns {ρ : Type} {x : Comp Event PyError ρ} : Raises x ↔ ¬ Returns x := by
  rw [Raises, Returns]
  cases x.result <;> simp

/-- What is done with the value of a call does not show. -/
lemma callsAgree_bind_pure {α β γ δ : Type} {x : Comp Event PyError α}
    {y : Comp Event PyError β} {f : α → γ} {g : β → δ} :
    CallsAgree (x >>= fun a => pure (f a)) (y >>= fun b => pure (g b)) ↔ CallsAgree x y := by
  rw [CallsAgree, CallsAgree, returns_bind_pure, returns_bind_pure, raises_bind_pure,
    raises_bind_pure, Comp.bind_pure_events, Comp.bind_pure_events]

lemma callsAgree_refl {ρ : Type} (x : Comp Event PyError ρ) : CallsAgree x x := by
  by_cases h : Returns x
  · exact Or.inl ⟨h, h, fun _ _ => Iff.rfl, fun _ => Iff.rfl⟩
  · exact Or.inr ⟨raises_iff_not_returns.mpr h, raises_iff_not_returns.mpr h⟩

/-! ### Uploads -/

section

variable {args : CallArgs} {files : List String} {anchor : Option String}

lemma prepareUpload_suffix {session : Session} {op : ToUploadOperation}
    (h : prepareUpload world args files anchor = .ok (session, op)) :
    op.files.map (·.localPath) = files ∧ op.anchor = anchor ∧
      session.deliveryId = newDeliveryId world args ∧
      ∀ f ∈ files, ∃ s, localPathToKeySuffix f anchor = .ok s := by
  obtain ⟨hid, hop⟩ := prepareUpload_ok world args h
  obtain ⟨hvalid, -, -, hfiles⟩ := createAndValidateToUploadOperation_ok_iff.mp hop
  refine ⟨?_, anchor_of_created hop, hid, fun f hf => localPathToKeySuffix_of_valid (hvalid f hf)⟩
  rw [hfiles, map_localPath_fileToUpload]

/-- The two halves of a run of one upload operation. -/
lemma runPending_upload_returns_iff {session : Session} {op : ToUploadOperation} :
    Returns (runPending world uploads args session [.upload op]) ↔
      ∃ res operation, (putFilesToIngestionSystem uploads 0 session.s3Client session.deliveryId
          args op.anchor op).result = .ok (res, operation) ∧
        (submit world args session.config
          (deliveryOf args session [.upload operation])).result = .ok () := by
  constructor
  · rintro ⟨⟨responses, d⟩, h⟩
    obtain ⟨processed, hloop, -, rfl, hs⟩ := runPending_ok _ _ _ h
    obtain ⟨b, cs, rfl, hb, hcs⟩ := Comp.eachFrom_cons_ok.mp hloop
    obtain rfl : cs = [] := (Except.ok.inj hcs).symm
    obtain ⟨⟨res, operation⟩, hput, he⟩ := Comp.bind_result_eq_ok.mp hb
    cases he
    exact ⟨res, operation, hput, hs⟩
  · rintro ⟨res, operation, hput, hs⟩
    refine ⟨_, Comp.bind_result_eq_ok.mpr ⟨[_], Comp.eachFrom_cons_ok.mpr
      ⟨_, [], rfl, Comp.bind_result_eq_ok.mpr ⟨_, hput, rfl⟩, rfl⟩,
      Comp.bind_result_eq_ok.mpr ⟨(), hs, rfl⟩⟩⟩

lemma upload_returns_iff_run :
    Returns (upload world uploads args files anchor) ↔
      ∃ session op, prepareUpload world args files anchor = .ok (session, op) ∧
        Returns (runPending world uploads args session [.upload op]) := by
  rw [← returns_bind_pure (f := fun y => ([OperationResponse.upload y.1], y.2)), upload_eq]
  simp only [Returns, Comp.bind_result_eq_ok, Comp.lift_result]
  constructor
  · rintro ⟨r, ⟨session, op⟩, hprep, h⟩
    exact ⟨session, op, hprep, r, h⟩
  · rintro ⟨session, op, hprep, r, h⟩
    exact ⟨r, ⟨session, op⟩, hprep, h⟩

lemma filterMap_successOf_ne_nil {dryRun : Bool} {n : ℕ} {did pid ds : String} :
    (uploads.completed n (ingestionKeys did pid ds anchor files).items).filterMap
        (successOf dryRun (uploads.run n)) ≠ [] ↔
      ∃ f ∈ files, ∃ eTag, verdict dryRun (uploads.run n (ofString f)) = .ok eTag := by
  have hc := uploads.completed_perm n (ingestionKeys did pid ds anchor files).items
  constructor
  · intro hne
    obtain ⟨s, hs⟩ := List.exists_mem_of_ne_nil _ hne
    obtain ⟨item, hitem, hsome⟩ := List.mem_filterMap.mp hs
    obtain ⟨eTag, hv, -⟩ := successOf_eq_some hsome
    obtain ⟨f, hf, rfl⟩ := mem_ingestionKeys (hc.mem_iff.mp hitem)
    exact ⟨f, hf, eTag, hv⟩
  · rintro ⟨f, hf, eTag, hv⟩ hnil
    obtain ⟨key, hkey⟩ := Dict.mem_keys_iff.mp (mem_keys_ingestionKeys.mpr
      (List.mem_map_of_mem hf))
    have hsome := List.filterMap_eq_nil_iff.mp hnil _
      (hc.mem_iff.mpr (Dict.mem_items_iff.mpr hkey))
    rw [successOf_ok hv] at hsome
    cases hsome

/-- **When an upload returns**, told by its input and the ends of its puts. -/
theorem upload_returns_iff :
    Returns (upload world uploads args files anchor) ↔
      Completes world uploads args files anchor := by
  rw [upload_returns_iff_run]
  refine exists_congr fun session => exists_congr fun op => ?_
  constructor
  · rintro ⟨hprep, hrun⟩
    obtain ⟨res, operation, hput, hs⟩ := runPending_upload_returns_iff.mp hrun
    obtain ⟨hmap, hanchor, hid, -⟩ := prepareUpload_suffix hprep
    rw [hanchor, hid] at hput
    obtain ⟨-, hw, hset, hsucc, -, ho, hus⟩ := (putFilesToIngestionSystem_ok_iff hmap).mp hput
    obtain ⟨operation, entries⟩ := operation
    cases ho
    refine ⟨entries, hprep, hw, fun f hf => ?_, ?_, hus, hs⟩
    · obtain ⟨key, hkey⟩ := Dict.mem_keys_iff.mp (mem_keys_ingestionKeys.mpr
        (List.mem_map_of_mem hf))
      exact hset _ (Dict.mem_items_iff.mpr hkey)
    · exact filterMap_successOf_ne_nil.mp hsucc
  · rintro ⟨entries, hprep, hw, hset, hsucc, hus, hs⟩
    obtain ⟨hmap, hanchor, hid, hsuffix⟩ := prepareUpload_suffix hprep
    refine ⟨hprep, runPending_upload_returns_iff.mpr ?_⟩
    rw [hanchor, hid]
    have hsettle : ∀ item ∈ (ingestionKeys (newDeliveryId world args) args.productId
        args.datasetId anchor files).items,
        Settles args.raiseOnUploadError (verdict args.dryRun (uploads.run 0 item.1)) := by
      intro item hitem
      obtain ⟨f, hf, rfl⟩ := mem_ingestionKeys hitem
      exact hset f hf
    exact ⟨_, ⟨.upload, entries⟩, (putFilesToIngestionSystem_ok_iff hmap).mpr ⟨hsuffix, hw,
      hsettle, filterMap_successOf_ne_nil.mpr hsucc, rfl, rfl, hus⟩, hs⟩

/-- The puts of a real upload that returns are those of its mapping. -/
lemma putTo_upload_iff (hdry : args.dryRun = false)
    (h : Returns (upload world uploads args files anchor)) {file : PosixPath} {key : String} :
    PutTo (upload world uploads args files anchor).events file key ↔
      (file, key) ∈ (ingestionKeys (newDeliveryId world args) args.productId args.datasetId
        anchor files).items := by
  obtain ⟨session, op, hprep, hrun⟩ := upload_returns_iff_run.mp h
  obtain ⟨res, operation, hput, hs⟩ := runPending_upload_returns_iff.mp hrun
  obtain ⟨hmap, hanchor, hid, hsuffix⟩ := prepareUpload_suffix hprep
  rw [hanchor, hid] at hput
  obtain ⟨-, hw, -⟩ := (putFilesToIngestionSystem_ok_iff hmap).mp hput
  have hup : (upload world uploads args files anchor).events =
      (runPending world uploads args session [.upload op]).events := by
    have he := congrArg Comp.events (upload_eq world uploads args files anchor)
    rwa [Comp.bind_pure_events, hprep, Comp.lift_ok_bind] at he
  rw [hup]
  constructor
  · rintro ⟨call, hcall, rfl, rfl⟩
    rcases Comp.mem_bind hcall with hcall | ⟨_, -, hcall⟩
    · obtain ⟨i, p, hp, hcall⟩ := Comp.mem_eachFrom_events hcall
      obtain ⟨rfl, rfl⟩ : i = 0 ∧ PendingOperation.upload op = p := by
        rcases i with _ | i
        · exact ⟨rfl, by simpa using hp⟩
        · simp at hp
      rw [processOperation, Comp.bind_pure_events, hanchor, hid] at hcall
      obtain ⟨item, hitem, hcall⟩ := exists_of_mem_putFilesToIngestionSystem_events hmap hcall
      obtain ⟨-, hfile, hkey⟩ := started_mem_uploadFile hcall
      rwa [hfile, hkey]
    · rcases Comp.mem_bind hcall with hcall | ⟨_, -, hcall⟩
      · exact absurd hcall (started_notMem_submit world args)
      · cases hcall
  · intro hitem
    have hfirst := first_mem_exchange (putCall session.s3Client 0 args.chunkSizeBytes (file, key))
      (uploads.run 0 file).toUploadTimes key file args.raiseOnUploadError
      (uploads.run 0 file).attempts
    refine ⟨putCall session.s3Client 0 args.chunkSizeBytes (file, key) 1,
      Comp.mem_bind_left (Comp.mem_bind_left ?_), rfl, rfl⟩
    rw [processOperation, Comp.bind_pure_events, hanchor, hid]
    exact mem_putFilesToIngestionSystem_events hmap hsuffix hw hitem
      (started_mem_putEvents.mpr ⟨_, by rw [hdry]; exact hfirst⟩)

/-- A delivery of one upload returns when the upload does, and shows the same. -/
lemma delivery_upload_like :
    (Returns (delivery world uploads args [.upload ⟨files, anchor⟩]) ↔
      Returns (upload world uploads args files anchor)) ∧
    (Returns (delivery world uploads args [.upload ⟨files, anchor⟩]) →
      (delivery world uploads args [.upload ⟨files, anchor⟩]).events =
        (upload world uploads args files anchor).events) := by
  rcases prepareDelivery_upload_cases world args files anchor with
    hprep | ⟨-, -, -, ⟨e, hdelivery⟩, e', hupload⟩
  · have heq := delivery_upload uploads args files anchor hprep
    constructor
    · rw [← returns_bind_pure (f := fun y => (y.1.operationsResponses, y.2)), heq,
        returns_bind_pure]
    · intro _
      simpa only [Comp.bind_pure_events] using congrArg Comp.events heq
  · have hno : ¬ Returns (delivery world uploads args [.upload ⟨files, anchor⟩]) := by
      rw [delivery_eq, hdelivery, Comp.lift_error_bind]
      rintro ⟨_, h⟩
      cases h
    refine ⟨iff_of_false hno ?_, fun h => absurd h hno⟩
    rw [upload_returns_iff_run, hupload]
    rintro ⟨_, _, h, -⟩
    cases h

lemma upload_dry_events (hdry : args.dryRun = true) :
    (upload world uploads args files anchor).events = [] := by
  rw [← Comp.bind_pure_events _ fun y : ResponseUpload × Common.Delivery =>
    ([OperationResponse.upload y.1], y.2), upload_eq]
  exact Comp.bind_events_eq_nil rfl fun x => runPending_dry_events _ _ _ hdry _ _

/-- Two anchors under which one list of files has the same keys are the same anchor. -/
lemma anchor_eq_of_items {a b : Option String} {did pid ds : String} {f : String}
    (hf : f ∈ files) (ha : ∀ f ∈ files, ∃ s, localPathToKeySuffix f a = .ok s)
    (hb : ∀ f ∈ files, ∃ s, localPathToKeySuffix f b = .ok s)
    (h : ∀ file key, (file, key) ∈ (ingestionKeys did pid ds a files).items →
      (file, key) ∈ (ingestionKeys did pid ds b files).items) : a = b := by
  obtain ⟨key, hkey⟩ := Dict.mem_keys_iff.mp (mem_keys_ingestionKeys.mpr
    (List.mem_map_of_mem hf))
  have hitem := Dict.mem_items_iff.mpr hkey
  obtain ⟨g, hg, heg⟩ := mem_ingestionKeys hitem
  obtain ⟨g', hg', heg'⟩ := mem_ingestionKeys (h _ _ hitem)
  obtain ⟨hp, hk⟩ := Prod.mk.inj heg
  obtain ⟨hp', hk'⟩ := Prod.mk.inj heg'
  obtain ⟨s, hs⟩ := ha g hg
  obtain ⟨s', hs'⟩ := hb g' hg'
  have hsame : s = s' := by
    rw [← keySuffixOf_of_ok hs, ← keySuffixOf_of_ok hs']
    exact newDataBucketPath_inj.mp (hk.symm.trans hk')
  exact localPathToKeySuffix_inj (hp.symm.trans hp') hs (hsame ▸ hs')

/-- Two uploads of the same files agree when their anchors are the same, when neither
returns, and in a dry run when both return. -/
lemma callsAgree_upload_iff (hfiles : files ≠ []) {a b : Option String} :
    CallsAgree (upload world uploads args files a) (upload world uploads args files b) ↔
      a = b ∨ (¬ Completes world uploads args files a ∧ ¬ Completes world uploads args files b) ∨
      (args.dryRun = true ∧ Completes world uploads args files a ∧
        Completes world uploads args files b) := by
  rw [← upload_returns_iff, ← upload_returns_iff]
  constructor
  · rintro (⟨ha, hb, hput, -⟩ | ⟨ha, hb⟩)
    · cases hdry : args.dryRun with
      | true => exact Or.inr (Or.inr ⟨rfl, ha, hb⟩)
      | false =>
          obtain ⟨f, hf⟩ := List.exists_mem_of_ne_nil _ hfiles
          obtain ⟨_, _, hprepa, -⟩ := upload_returns_iff_run.mp ha
          obtain ⟨_, _, hprepb, -⟩ := upload_returns_iff_run.mp hb
          obtain ⟨-, -, -, hsa⟩ := prepareUpload_suffix hprepa
          obtain ⟨-, -, -, hsb⟩ := prepareUpload_suffix hprepb
          have hitems : ∀ file key,
              (file, key) ∈ (ingestionKeys (newDeliveryId world args) args.productId
                args.datasetId a files).items →
              (file, key) ∈ (ingestionKeys (newDeliveryId world args) args.productId
                args.datasetId b files).items := by
            intro file key hitem
            rw [← putTo_upload_iff hdry hb, ← hput, putTo_upload_iff hdry ha]
            exact hitem
          exact Or.inl (anchor_eq_of_items hf hsa hsb hitems)
    · exact Or.inr (Or.inl ⟨raises_iff_not_returns.mp ha, raises_iff_not_returns.mp hb⟩)
  · rintro (rfl | ⟨ha, hb⟩ | ⟨hdry, ha, hb⟩)
    · exact callsAgree_refl _
    · exact Or.inr ⟨raises_iff_not_returns.mpr ha, raises_iff_not_returns.mpr hb⟩
    · refine Or.inl ⟨ha, hb, ?_, ?_⟩
      · simp [PutTo, upload_dry_events hdry]
      · simp [upload_dry_events hdry]

end

lemma callsAgree_congr_right {ρ σ τ : Type} {x : Comp Event PyError ρ}
    {y : Comp Event PyError σ} {z : Comp Event PyError τ} (hr : Returns y ↔ Returns z)
    (he : Returns y → y.events = z.events) : CallsAgree x y ↔ CallsAgree x z := by
  by_cases hy : Returns y
  · simp [CallsAgree, raises_iff_not_returns, hr.mp hy, hy, he hy]
  · simp [CallsAgree, raises_iff_not_returns, mt hr.mpr hy, hy]

/-- **Which anchor counts**: submitting an upload is submitting the delivery of it exactly when
the two anchors are the same, or neither of them lets the upload return, or it is a dry run that
returns with both. -/
theorem submit_agrees_iff (u : Upload) (a : SubmitArgs) (hfiles : u.files ≠ []) :
    CallsAgree (Upload.submit world uploads env u a)
        (Delivery.submit world uploads env ⟨[.upload u]⟩ a) ↔
      a.anchor = u.anchor ∨
      (¬ Completes world uploads (a.callArgs env) u.files a.anchor ∧
        ¬ Completes world uploads (a.callArgs env) u.files u.anchor) ∨
      (a.dryRun = true ∧ Completes world uploads (a.callArgs env) u.files a.anchor ∧
        Completes world uploads (a.callArgs env) u.files u.anchor) := by
  rw [Upload.submit, if_neg hfiles, Delivery.submit, if_neg (by simp), callsAgree_bind_pure,
    callsAgree_congr_right delivery_upload_like.1 delivery_upload_like.2,
    callsAgree_upload_iff hfiles]
  rfl

/-- One file behind an anchor. -/
def exampleUpload : Upload := ⟨["anc/x.nc"], some "anc"⟩

def exampleSubmitArgs (anchor : Option String) : SubmitArgs where
  productId := "prod"
  datasetId := "dset"
  anchor := anchor

/-- The anchor is given twice, alike. -/
theorem submit_agrees_iff_same :
    CallsAgree
      (Upload.submit (exampleWorld [("anc/x.nc", 10)]) (exampleUploads (.success (some "t1")))
        none exampleUpload (exampleSubmitArgs (some "anc")))
      (Delivery.submit (exampleWorld [("anc/x.nc", 10)]) (exampleUploads (.success (some "t1")))
        none ⟨[.upload exampleUpload]⟩ (exampleSubmitArgs (some "anc"))) :=
  (submit_agrees_iff exampleUpload _ (by decide)).mpr (Or.inl rfl)

/-- The anchor of the operation is not looked at: alone, the upload puts its file under a longer
key than in a delivery. -/
theorem not_submit_agrees_constructor :
    ¬ CallsAgree
      (Upload.submit (exampleWorld [("anc/x.nc", 10)]) (exampleUploads (.success (some "t1")))
        none exampleUpload (exampleSubmitArgs none))
      (Delivery.submit (exampleWorld [("anc/x.nc", 10)]) (exampleUploads (.success (some "t1")))
        none ⟨[.upload exampleUpload]⟩ (exampleSubmitArgs none)) := by
  have hdelivery : (Delivery.submit (exampleWorld [("anc/x.nc", 10)])
      (exampleUploads (.success (some "t1"))) none ⟨[.upload exampleUpload]⟩
      (exampleSubmitArgs none)).events.filterMap putKey =
      ["data/20250102T030405-prod-1234/prod/dset/x.nc"] := by decide +kernel
  have hreturns : (Upload.submit (exampleWorld [("anc/x.nc", 10)])
      (exampleUploads (.success (some "t1"))) none exampleUpload
      (exampleSubmitArgs none)).result.toBool = true := by decide +kernel
  rintro (⟨-, -, hput, -⟩ | ⟨⟨e, he⟩, -⟩)
  · have hmem := PutTo.key_mem ((hput (ofString "anc/x.nc")
      "data/20250102T030405-prod-1234/prod/dset/anc/x.nc").mp
      ⟨putCall exampleClient 0 16777216 (ofString "anc/x.nc",
        "data/20250102T030405-prod-1234/prod/dset/anc/x.nc") 1, by decide +kernel, rfl, rfl⟩)
    rw [hdelivery] at hmem
    exact absurd hmem (by decide +kernel)
  · rw [he] at hreturns
    cases hreturns

end MarineDelivery.Interface
