import MarineDelivery.Core
import MarineDelivery.Models

/-!
The manifest as JSON.

A delivery is dumped field by field under the names of its models, for the file of the command
line as for the POST, and validated again when it is read. An operation is told apart by its
field `operation`, every key suffix passes its validator again, and nothing is lost.
-/

namespace MarineDelivery.ManifestJson

open MarineDelivery.PathLib MarineDelivery.Errors MarineDelivery.Common MarineDelivery.Domain
open MarineDelivery.Traced MarineDelivery.Models MarineDelivery.Core

/-- What is assumed of the library: an integer is taken for itself. -/
structure Coercions where
  int : PyError → Value → Except PyError ℤ
  int_int : ∀ e n, int e (.int n) = .ok n

/-! ### Fields -/

def missing (model field : String) : PyError := .validationError model field "Field required"

def notText (model field : String) : PyError :=
  .validationError model field "Input should be a valid string"

def notList (model field : String) : PyError :=
  .validationError model field "Input should be a valid list"

def notDict (model : String) : PyError :=
  .validationError model "" s!"Input should be a valid dictionary or instance of {model}"

/-- A field of type `str`. -/
def textField (model field : String) (items : List (Value × Value)) : Except PyError String :=
  required (missing model field) (asText (notText model field)) (get? field items)

/-- A field of type `str | None` without a default. -/
def nullableField (model field : String) (items : List (Value × Value)) :
    Except PyError (Option String) :=
  required (missing model field) (nullable (asText (notText model field))) (get? field items)

/-- A field of type `str | None` that is `None` by default. -/
def optionalField (model field : String) (items : List (Value × Value)) :
    Except PyError (Option String) :=
  defaulted none (nullable (asText (notText model field))) (get? field items)

/-- The field `key_suffix`, with its validator. -/
def keySuffixField (model : String) (items : List (Value × Value)) :
    Except PyError KeySuffix := do
  let keySuffix ← textField model "key_suffix" items
  ensureNormalizedKeySuffix model keySuffix

def operationName (model : String) : Value → Except PyError OperationNames
  | .str "upload" => .ok .upload
  | .str "delete" => .ok .delete
  | _ => .error (.validationError model "operation" "Input should be 'upload' or 'delete'")

def deliveryStatus : Value → Except PyError DeliveryStatus
  | .str "pending" => .ok .pending
  | .str "validated" => .ok .validated
  | .str "failed" => .ok .failed
  | .str "published" => .ok .published
  | .str "partially-failed" => .ok .partiallyFailed
  | _ => .error (.validationError "Delivery" "status"
      ("Input should be 'pending', 'validated', 'failed', 'published' or " ++
        "'partially-failed'"))

/-! ### Reading a delivery -/

variable (coercions : Coercions)

def UploadFile.modelValidate (v : Value) : Except PyError UploadFile := do
  let items ← asItems (notDict "UploadFile") v
  let keySuffix ← keySuffixField "UploadFile" items
  let errorMessage ← optionalField "UploadFile" "error_message" items
  let fileSizeMb ← required (missing "UploadFile" "file_size_mb")
    (coercions.int (.validationError "UploadFile" "file_size_mb"
      "Input should be a valid integer")) (get? "file_size_mb" items)
  let checksum ← textField "UploadFile" "checksum" items
  let uploadStartTime ← nullableField "UploadFile" "upload_start_time" items
  let uploadEndTime ← nullableField "UploadFile" "upload_end_time" items
  return { keySuffix, errorMessage, fileSizeMb, checksum, uploadStartTime, uploadEndTime }

def DeleteFile.modelValidate (v : Value) : Except PyError DeleteFile := do
  let items ← asItems (notDict "DeleteFile") v
  let keySuffix ← keySuffixField "DeleteFile" items
  let errorMessage ← optionalField "DeleteFile" "error_message" items
  return { keySuffix, errorMessage }

def UploadOperation.modelValidate (v : Value) : Except PyError UploadOperation := do
  let items ← asItems (notDict "UploadOperation") v
  let files ← defaulted [] (asList (notList "UploadOperation" "files")
    (UploadFile.modelValidate coercions)) (get? "files" items)
  let operation ← defaulted .upload (operationName "UploadOperation") (get? "operation" items)
  return { operation, files }

def DeleteOperation.modelValidate (v : Value) : Except PyError DeleteOperation := do
  let items ← asItems (notDict "DeleteOperation") v
  let files ← defaulted [] (asList (notList "DeleteOperation" "files")
    DeleteFile.modelValidate) (get? "files" items)
  let operation ← defaulted .delete (operationName "DeleteOperation") (get? "operation" items)
  return { operation, files }

/-- `type(value).__name__`. -/
def typeName : Value → String
  | .null => "NoneType"
  | .bool _ => "bool"
  | .int _ => "int"
  | .float _ => "float"
  | .str _ => "str"
  | .bytes _ => "bytes"
  | .date _ => "date"
  | .list _ => "list"
  | .set _ => "set"
  | .tuple _ => "tuple"
  | .dict _ => "dict"

def operationDiscriminator (value : Value) : Except PyError Value :=
  match value.items? with
  | some items =>
    match get? "operation" items with
    | some tag => .ok tag
    | none => .error (.valueError "Missing 'operation' field in operation data.")
  | none => .error (.attributeError s!"'{typeName value}' object has no attribute 'operation'")

def Operation.modelValidate (v : Value) : Except PyError Operation := do
  let tag ← operationDiscriminator v
  match tag with
  | .str "upload" =>
    let op ← UploadOperation.modelValidate coercions v
    return .upload op
  | .str "delete" =>
    let op ← DeleteOperation.modelValidate v
    return .delete op
  | _ => .error (.validationError "Delivery" "operations"
      "Input tag does not match any of the expected tags: 'upload', 'delete'")

def Delivery.modelValidate (v : Value) : Except PyError Delivery := do
  let items ← asItems (notDict "Delivery") v
  let deliveryId ← textField "Delivery" "delivery_id" items
  let pushingEntityId ← textField "Delivery" "pushing_entity_id" items
  let productId ← textField "Delivery" "product_id" items
  let datasetId ← textField "Delivery" "dataset_id" items
  let operations ← defaulted [] (asList (notList "Delivery" "operations")
    (Operation.modelValidate coercions)) (get? "operations" items)
  let creationTimestamp ← optionalField "Delivery" "creation_timestamp" items
  let status ← defaulted .pending deliveryStatus (get? "status" items)
  let statusTimestamp ← optionalField "Delivery" "status_timestamp" items
  let errorMessage ← optionalField "Delivery" "error_message" items
  return { deliveryId, pushingEntityId, productId, datasetId, operations, creationTimestamp,
           status, statusTimestamp, errorMessage }

/-! ### Writing a delivery -/

def OperationNames.value : OperationNames → String
  | .upload => "upload"
  | .delete => "delete"

def DeliveryStatus.value : DeliveryStatus → String
  | .pending => "pending"
  | .validated => "validated"
  | .failed => "failed"
  | .published => "published"
  | .partiallyFailed => "partially-failed"

def UploadFile.modelDump (file : UploadFile) : Value :=
  .dict [
    (.str "key_suffix", .str file.keySuffix.1),
    (.str "error_message", dumpNullable .str file.errorMessage),
    (.str "file_size_mb", .int file.fileSizeMb),
    (.str "checksum", .str file.checksum),
    (.str "upload_start_time", dumpNullable .str file.uploadStartTime),
    (.str "upload_end_time", dumpNullable .str file.uploadEndTime)]

def DeleteFile.modelDump (file : DeleteFile) : Value :=
  .dict [
    (.str "key_suffix", .str file.keySuffix.1),
    (.str "error_message", dumpNullable .str file.errorMessage)]

def UploadOperation.modelDump (op : UploadOperation) : Value :=
  .dict [
    (.str "files", dumpList UploadFile.modelDump op.files),
    (.str "operation", .str (OperationNames.value op.operation))]

def DeleteOperation.modelDump (op : DeleteOperation) : Value :=
  .dict [
    (.str "files", dumpList DeleteFile.modelDump op.files),
    (.str "operation", .str (OperationNames.value op.operation))]

def Operation.modelDump : Operation → Value
  | .upload op => UploadOperation.modelDump op
  | .delete op => DeleteOperation.modelDump op

def Delivery.modelDump (d : Delivery) : Value :=
  .dict [
    (.str "delivery_id", .str d.deliveryId),
    (.str "pushing_entity_id", .str d.pushingEntityId),
    (.str "product_id", .str d.productId),
    (.str "dataset_id", .str d.datasetId),
    (.str "operations", dumpList Operation.modelDump d.operations),
    (.str "creation_timestamp", dumpNullable .str d.creationTimestamp),
    (.str "status", .str (DeliveryStatus.value d.status)),
    (.str "status_timestamp", dumpNullable .str d.statusTimestamp),
    (.str "error_message", dumpNullable .str d.errorMessage)]

/-! ### The round trip -/

section

variable {model field : String} {items : List (Value × Value)}

lemma textField_of_get? {s : String} (h : get? field items = some (.str s)) :
    textField model field items = .ok s := by
  rw [textField, h]
  rfl

lemma nullableField_of_get? {a : Option String}
    (h : get? field items = some (dumpNullable .str a)) :
    nullableField model field items = .ok a := by
  rw [nullableField, h]
  exact roundTrips_nullable_text _ a

lemma optionalField_of_get? {a : Option String}
    (h : get? field items = some (dumpNullable .str a)) :
    optionalField model field items = .ok a := by
  rw [optionalField, h]
  exact roundTrips_nullable_text _ a

/-- The validator lets its own values through again. -/
lemma keySuffixField_of_get? {keySuffix : KeySuffix}
    (h : get? "key_suffix" items = some (.str keySuffix.1)) :
    keySuffixField model items = .ok keySuffix := by
  rw [keySuffixField, textField_of_get? h]
  exact ensureNormalizedKeySuffix_of_ok keySuffix.2

end

lemma roundTrips_uploadFile (file : UploadFile) :
    RoundTrips UploadFile.modelDump (UploadFile.modelValidate coercions) file := by
  have hsize : ∀ e e', required e (coercions.int e') (some (.int file.fileSizeMb)) =
      .ok file.fileSizeMb := fun _ _ => coercions.int_int _ _
  unfold RoundTrips UploadFile.modelDump UploadFile.modelValidate
  rw [asItems, Value.items?, ok_bind, keySuffixField_of_get? rfl, ok_bind,
    optionalField_of_get? rfl, ok_bind]
  rw [show get? "file_size_mb" _ = some (.int file.fileSizeMb) from rfl, hsize, ok_bind,
    textField_of_get? rfl, ok_bind, nullableField_of_get? rfl, ok_bind,
    nullableField_of_get? rfl, ok_bind]
  rfl

lemma roundTrips_deleteFile (file : DeleteFile) :
    RoundTrips DeleteFile.modelDump DeleteFile.modelValidate file := by
  unfold RoundTrips DeleteFile.modelDump DeleteFile.modelValidate
  rw [asItems, Value.items?, ok_bind, keySuffixField_of_get? rfl, ok_bind,
    optionalField_of_get? rfl, ok_bind]
  rfl

lemma operationName_value (model : String) (name : OperationNames) :
    operationName model (.str (OperationNames.value name)) = .ok name := by
  cases name <;> rfl

lemma deliveryStatus_value (status : DeliveryStatus) :
    deliveryStatus (.str (DeliveryStatus.value status)) = .ok status := by
  cases status <;> rfl

lemma roundTrips_uploadOperation (op : UploadOperation) :
    RoundTrips UploadOperation.modelDump (UploadOperation.modelValidate coercions) op := by
  have hfiles : asList (notList "UploadOperation" "files") (UploadFile.modelValidate coercions)
      (dumpList UploadFile.modelDump op.files) = .ok op.files :=
    roundTrips_list _ fun file _ => roundTrips_uploadFile coercions file
  unfold RoundTrips UploadOperation.modelDump UploadOperation.modelValidate
  rw [asItems, Value.items?, ok_bind,
    show get? "files" _ = some (dumpList UploadFile.modelDump op.files) from rfl,
    show get? "operation" _ = some (.str (OperationNames.value op.operation)) from rfl,
    defaulted, hfiles, ok_bind, defaulted, operationName_value, ok_bind]
  rfl

lemma roundTrips_deleteOperation (op : DeleteOperation) :
    RoundTrips DeleteOperation.modelDump DeleteOperation.modelValidate op := by
  have hfiles : asList (notList "DeleteOperation" "files") DeleteFile.modelValidate
      (dumpList DeleteFile.modelDump op.files) = .ok op.files :=
    roundTrips_list _ fun file _ => roundTrips_deleteFile file
  unfold RoundTrips DeleteOperation.modelDump DeleteOperation.modelValidate
  rw [asItems, Value.items?, ok_bind,
    show get? "files" _ = some (dumpList DeleteFile.modelDump op.files) from rfl,
    show get? "operation" _ = some (.str (OperationNames.value op.operation)) from rfl,
    defaulted, hfiles, ok_bind, defaulted, operationName_value, ok_bind]
  rfl

/-- The field `operation` of an operation says which class it has. -/
def Tagged : Operation → Prop
  | .upload op => op.operation = .upload
  | .delete op => op.operation = .delete

/-- The discriminator finds the class again. -/
lemma roundTrips_operation {op : Operation} (h : Tagged op) :
    RoundTrips Operation.modelDump (Operation.modelValidate coercions) op := by
  cases op with
  | upload op =>
      have htag : operationDiscriminator (Operation.modelDump (.upload op)) =
          .ok (.str "upload") := by
        show Except.ok (Value.str (OperationNames.value op.operation)) = _
        rw [h]
        rfl
      have hop := roundTrips_uploadOperation coercions op
      unfold RoundTrips at hop ⊢
      rw [Operation.modelValidate, htag, ok_bind]
      show (UploadOperation.modelValidate coercions (UploadOperation.modelDump op) >>= _) = _
      rw [hop]
      rfl
  | delete op =>
      have htag : operationDiscriminator (Operation.modelDump (.delete op)) =
          .ok (.str "delete") := by
        show Except.ok (Value.str (OperationNames.value op.operation)) = _
        rw [h]
        rfl
      have hop := roundTrips_deleteOperation op
      unfold RoundTrips at hop ⊢
      rw [Operation.modelValidate, htag, ok_bind]
      show (DeleteOperation.modelValidate (DeleteOperation.modelDump op) >>= _) = _
      rw [hop]
      rfl

lemma roundTrips_delivery {d : Delivery} (h : ∀ op ∈ d.operations, Tagged op) :
    RoundTrips Delivery.modelDump (Delivery.modelValidate coercions) d := by
  have hoperations : asList (notList "Delivery" "operations")
      (Operation.modelValidate coercions) (dumpList Operation.modelDump d.operations) =
        .ok d.operations :=
    roundTrips_list _ fun op hop => roundTrips_operation coercions (h op hop)
  unfold RoundTrips Delivery.modelDump Delivery.modelValidate
  rw [asItems, Value.items?, ok_bind, textField_of_get? rfl, ok_bind, textField_of_get? rfl,
    ok_bind, textField_of_get? rfl, ok_bind, textField_of_get? rfl, ok_bind,
    show get? "operations" _ = some (dumpList Operation.modelDump d.operations) from rfl,
    defaulted, hoperations, ok_bind, optionalField_of_get? rfl, ok_bind,
    show get? "status" _ = some (.str (DeliveryStatus.value d.status)) from rfl, defaulted,
    deliveryStatus_value, ok_bind, optionalField_of_get? rfl, ok_bind,
    optionalField_of_get? rfl, ok_bind]
  rfl

/-! ### Where deliveries come from -/

lemma operationDiscriminator_ok_iff {v tag : Value} :
    operationDiscriminator v = .ok tag ↔
      ∃ items, v.items? = some items ∧ get? "operation" items = some tag := by
  unfold operationDiscriminator
  cases v.items? with
  | none => simp
  | some items => cases hget : get? "operation" items <;> simp [hget]

/-- What a validated operation says is what the discriminator went by. -/
lemma tagged_of_validate {v : Value} {op : Operation}
    (h : Operation.modelValidate coercions v = .ok op) : Tagged op := by
  unfold Operation.modelValidate at h
  obtain ⟨tag, htag, h⟩ := bind_eq_ok.mp h
  obtain ⟨items, hv, hget⟩ := operationDiscriminator_ok_iff.mp htag
  split at h
  · obtain ⟨op', hop, he⟩ := bind_eq_ok.mp h
    cases he
    unfold UploadOperation.modelValidate at hop
    simp only [bind_eq_ok, pure_eq_ok, asItems_ok_iff, hv, Option.some.injEq] at hop
    obtain ⟨_, rfl, files, -, name, hname, rfl⟩ := hop
    rw [hget] at hname
    exact (Except.ok.inj hname).symm
  · obtain ⟨op', hop, he⟩ := bind_eq_ok.mp h
    cases he
    unfold DeleteOperation.modelValidate at hop
    simp only [bind_eq_ok, pure_eq_ok, asItems_ok_iff, hv, Option.some.injEq] at hop
    obtain ⟨_, rfl, files, -, name, hname, rfl⟩ := hop
    rw [hget] at hname
    exact (Except.ok.inj hname).symm
  · cases h

/-- An operation built by the tool. -/
inductive Built : Operation → Prop
  | upload {toUploadOperation : ToUploadOperation} {putFilesResult : PutFilesResult}
    {datasetId : String} {op : UploadOperation}
    (h : buildUploadOperationFromPutResults toUploadOperation putFilesResult datasetId =
      .ok op) : Built (.upload op)
  | delete {files : List String} {op : DeleteOperation}
    (h : createAndValidateDeleteOperation files = .ok op) : Built (.delete op)

lemma Built.tagged {op : Operation} (h : Built op) : Tagged op := by
  cases h with
  | upload h =>
      unfold buildUploadOperationFromPutResults at h
      simp only [bind_eq_ok, pure_eq_ok] at h
      obtain ⟨files, -, rfl⟩ := h
      rfl
  | delete h =>
      unfold createAndValidateDeleteOperation at h
      simp only [bind_eq_ok, pure_eq_ok] at h
      obtain ⟨_, -, files, -, rfl⟩ := h
      rfl

/-- A delivery the tool can have: built by it, or read. -/
inductive Produced : Delivery → Prop
  | built (pushingEntityId productId datasetId deliveryId : String)
    {operations : List Operation} (h : ∀ op ∈ operations, Built op) :
    Produced (createDelivery pushingEntityId productId datasetId operations deliveryId)
  | decoded {v : Value} {d : Delivery} (h : Delivery.modelValidate coercions v = .ok d) :
    Produced d

lemma Produced.tagged {d : Delivery} (h : Produced coercions d) :
    ∀ op ∈ d.operations, Tagged op := by
  cases h with
  | built _ _ _ _ h => exact fun op hop => (h op hop).tagged
  | @decoded v _ h =>
      unfold Delivery.modelValidate at h
      simp only [bind_eq_ok, pure_eq_ok] at h
      obtain ⟨items, -, _, -, _, -, _, -, _, -, operations, hoperations, _, -, _, -, _, -, _, -,
        rfl⟩ := h
      intro op hop
      cases hget : get? "operations" items with
      | none =>
          rw [hget] at hoperations
          cases hoperations
          cases hop
      | some w =>
          rw [hget, defaulted, asList_ok_iff] at hoperations
          obtain ⟨elements, -, hoperations⟩ := hoperations
          obtain ⟨e, -, he⟩ := forall₂_right (mapM_ok_iff.mp hoperations) hop
          exact tagged_of_validate coercions he

/-- **The manifest survives its JSON.** A delivery that has been built by the tool, or validated
from any value, is dumped to a value that is validated to the same delivery. -/
theorem round_trip (coercions : Coercions) (d : Delivery) (h : Produced coercions d) :
    Delivery.modelValidate coercions (Delivery.modelDump d) = .ok d :=
  roundTrips_delivery coercions h.tagged

/-- Integers and truth values, for examples. -/
def exampleCoercions : Coercions where
  int invalid
    | .int n => .ok n
    | .bool b => .ok (if b then 1 else 0)
    | _ => .error invalid
  int_int _ _ := rfl

def exampleFile (s : String) (h : raiseOnWrongKeySuffix s = .ok ()) : UploadFile :=
  ⟨⟨s, h⟩, none, 3, "t1", some "10:00", some "10:01"⟩

/-- An upload and a delete. -/
theorem round_trip_two :
    let d := createDelivery "entity" "prod" "dset"
      [.upload ⟨.upload, [exampleFile "x.nc" (by decide)]⟩,
        .delete ⟨.delete, [⟨⟨"y.nc", by decide⟩, none⟩]⟩] "id"
    Delivery.modelValidate exampleCoercions (Delivery.modelDump d) = .ok d := by
  have hupload : Built (.upload ⟨.upload, [exampleFile "x.nc" (by decide)]⟩) :=
    .upload (show buildUploadOperationFromPutResults ⟨[⟨7 / 2, "x.nc"⟩], none⟩
      ⟨[⟨PosixPath.ofString "x.nc", "data/id/prod/dset/x.nc", "t1", "10:00", "10:01"⟩], []⟩
        "dset" = _ by decide +kernel)
  have hdelete : Built (.delete ⟨.delete, [⟨⟨"y.nc", by decide⟩, none⟩]⟩) :=
    .delete (show createAndValidateDeleteOperation ["y.nc"] = _ by decide +kernel)
  refine round_trip exampleCoercions _ (.built "entity" "prod" "dset" "id" fun op hop => ?_)
  rcases List.mem_pair.mp hop with rfl | rfl
  · exact hupload
  · exact hdelete

end MarineDelivery.ManifestJson
