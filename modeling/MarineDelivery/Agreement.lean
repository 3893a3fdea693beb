import MarineDelivery.Calls

/-!
One operation alone, and as the only operation of a delivery.

`upload` and `delete` make the checks of `delivery` in another order. With a bucket that can
be listed and limits that are not negative the order does not show.
-/

namespace MarineDelivery.Agreement

open MarineDelivery.Errors MarineDelivery.Common MarineDelivery.Domain
open MarineDelivery.Validation MarineDelivery.S3 MarineDelivery.Traced MarineDelivery.Core
open MarineDelivery.Calls

variable {world : World} {args : CallArgs} {files : List String}

/-- The bucket of a client can be listed. -/
def Reachable (world : World) : Prop := ∀ client, world.listObjects client = none

def NonnegativeLimits (world : World) : Prop :=
  ∀ config, world.getConfig = .ok config →
    0 ≤ config.apiLimits.maxNumberOfFilesPerDelivery ∧ 0 ≤ config.apiLimits.maxDeliverySizeGb

/-- Where the order of the checks shows: a bucket that cannot be opened. -/
lemma prepareDelivery_upload_cases (world : World) (args : CallArgs) (files : List String)
    (anchor : Option String) :
    prepareDelivery world args [.upload ⟨files, anchor⟩] =
        (prepareUpload world args files anchor >>= fun x => pure (x.1, [.upload x.2])) ∨
      ∃ pec e, openBucket world args pec = .error e ∧
        (∃ e, prepareDelivery world args [.upload ⟨files, anchor⟩] = .error e) ∧
        ∃ e, prepareUpload world args files anchor = .error e := by
  unfold prepareDelivery prepareUpload
  cases identify world args with
  | error e => exact Or.inl rfl
  | ok x =>
      simp only [ok_bind, bind_assoc, pure_bind, List.mapM_cons, List.mapM_nil,
        validateOperation]
      cases hclient : openBucket world args x.2 with
      | ok client => exact Or.inl rfl
      | error e =>
          refine Or.inr ⟨x.2, e, hclient, ⟨e, rfl⟩, ?_⟩
          cases createAndValidateToUploadOperation world.fileSystem files args.datasetId
              args.productId anchor with
          | error e' => exact ⟨e', rfl⟩
          | ok op =>
              cases hs : validateDeliverySizes x.1.apiLimits [op] with
              | error e' => exact ⟨e', by simp only [ok_bind, hs]; rfl⟩
              | ok u => exact ⟨e, by simp only [ok_bind, hs]; rfl⟩

lemma prepareDelivery_upload (hb : Reachable world) (anchor : Option String) :
    prepareDelivery world args [.upload ⟨files, anchor⟩] =
      prepareUpload world args files anchor >>= fun x => pure (x.1, [.upload x.2]) := by
  refine (prepareDelivery_upload_cases world args files anchor).resolve_right ?_
  rintro ⟨pec, e, he, -⟩
  obtain ⟨client, hclient⟩ := openBucket_of_reachable world args hb pec
  rw [hclient] at he
  cases he

lemma validateDeliverySizes_nil {limits : APILimits}
    (hn : 0 ≤ limits.maxNumberOfFilesPerDelivery) (hs : 0 ≤ limits.maxDeliverySizeGb) :
    validateDeliverySizes limits [] = .ok () := by
  simp [validateDeliverySizes, not_lt.mpr hn, Rat.not_lt.mpr hs]

lemma prepareDelivery_delete (args : CallArgs) (files : List String) (hb : Reachable world)
    (hl : NonnegativeLimits world) :
    ∃ client : GetPushingEntityConfigResponse → S3Client,
      prepareDelivery world args [.delete ⟨files⟩] = do
        let (config, pec) ← identify world args
        let op ← createAndValidateDeleteOperation files
        return (⟨config, pec.pushingEntity.name, newDeliveryId world args, client pec⟩,
          [.delete op]) := by
  choose client hclient using openBucket_of_reachable world args hb
  refine ⟨client, ?_⟩
  unfold prepareDelivery
  cases hid : identify world args with
  | error e => rfl
  | ok x =>
      obtain ⟨config, pec⟩ := x
      obtain ⟨hn, hs⟩ := hl config (identify_config world args hid)
      simp only [List.mapM_cons, List.mapM_nil, validateOperation, bind_assoc, pure_bind]
      rw [ok_bind, ok_bind, hclient, ok_bind]
      refine bind_congr fun op => ?_
      rw [show toUploadOperations [.delete op] = [] from rfl, validateDeliverySizes_nil hn hs,
        ok_bind]

/-- The same calls of `put`, the same POST, and the same result or exception: `upload` gives the
only response of `delivery`. -/
lemma delivery_upload (uploads : Uploads) (args : CallArgs) (files : List String)
    (anchor : Option String)
    (hprep : prepareDelivery world args [.upload ⟨files, anchor⟩] =
      prepareUpload world args files anchor >>= fun x => pure (x.1, [.upload x.2])) :
    (delivery world uploads args [.upload ⟨files, anchor⟩] >>= fun y =>
        pure (y.1.operationsResponses, y.2)) =
      upload world uploads args files anchor >>= fun y =>
        pure ([OperationResponse.upload y.1], y.2) := by
  rw [delivery_eq, upload_eq, hprep, Comp.lift_bind]
  simp only [bind_assoc, Comp.lift_pure, pure_bind, ResponseDelivery.create]
  refine bind_congr fun x => ?_
  exact bind_pure _

lemma delivery_delete (uploads : Uploads) (args : CallArgs) (files : List String)
    (hb : Reachable world) (hl : NonnegativeLimits world) :
    (delivery world uploads args [.delete ⟨files⟩] >>= fun y =>
        pure (y.1.operationsResponses, y.2)) =
      delete world args files >>= fun y => pure ([OperationResponse.delete y.1], y.2) := by
  obtain ⟨client, hclient⟩ := prepareDelivery_delete args files hb hl
  rw [delivery_eq, delete_eq, hclient]
  simp only [prepareDelete, Comp.lift_bind, bind_assoc, Comp.lift_pure, pure_bind, runPending,
    Comp.eachFrom, processOperation, ResponseDelivery.create]
  rfl

/-- **One operation alone or in a delivery**: `upload` and `delete` make the same puts and the
same POST as `delivery` with that one operation, and they return the same manifest and the
only response of the delivery, or raise the same exception. -/
theorem single_operation_agrees (uploads : Uploads) (args : CallArgs) (files : List String)
    (anchor : Option String) (hb : Reachable world) (hl : NonnegativeLimits world) :
    let single := upload world uploads args files anchor
    let multi := delivery world uploads args [.upload ⟨files, anchor⟩]
    let singleDelete := delete world args files
    let multiDelete := delivery world uploads args [.delete ⟨files⟩]
    (multi.events = single.events ∧
      multi.result.map (fun y => (y.1.operationsResponses, y.2)) =
        single.result.map fun y => ([OperationResponse.upload y.1], y.2)) ∧
    (multiDelete.events = singleDelete.events ∧
      multiDelete.result.map (fun y => (y.1.operationsResponses, y.2)) =
        singleDelete.result.map fun y => ([OperationResponse.delete y.1], y.2)) := by
  intro single multi singleDelete multiDelete
  have hu := delivery_upload uploads args files anchor (prepareDelivery_upload hb anchor)
  have hd := delivery_delete uploads args files hb hl
  refine ⟨⟨?_, ?_⟩, ?_, ?_⟩
  · simpa only [Comp.bind_pure_events] using congrArg Comp.events hu
  · simpa only [Comp.bind_pure_result] using congrArg Comp.result hu
  · simpa only [Comp.bind_pure_events] using congrArg Comp.events hd
  · simpa only [Comp.bind_pure_result] using congrArg Comp.result hd

/-- A call with one file, uploaded and deleted. -/
theorem single_operation_agrees_plain :
    let world := exampleWorld [("a.nc", 10)]
    let uploads := exampleUploads (.success (some "t1"))
    let single := upload world uploads exampleArgs ["a.nc"] none
    let multi := delivery world uploads exampleArgs [.upload ⟨["a.nc"], none⟩]
    let singleDelete := delete world exampleArgs ["a.nc"]
    let multiDelete := delivery world uploads exampleArgs [.delete ⟨["a.nc"]⟩]
    (multi.events = single.events ∧
      multi.result.map (fun y => (y.1.operationsResponses, y.2)) =
        single.result.map fun y => ([OperationResponse.upload y.1], y.2)) ∧
    (multiDelete.events = singleDelete.events ∧
      multiDelete.result.map (fun y => (y.1.operationsResponses, y.2)) =
        singleDelete.result.map fun y => ([OperationResponse.delete y.1], y.2)) :=
  single_operation_agrees _ _ _ _ (fun _ => rfl) (by rintro config ⟨⟩; decide +kernel)

end MarineDelivery.Agreement
