import Mathlib.Data.List.Sort
import Mathlib.Data.Prod.Lex
import MarineDelivery.Common
import MarineDelivery.PathLib

/-!
The data of the tool itself: what is asked for, what an upload leaves, and the responses.
-/

namespace MarineDelivery.Domain

open MarineDelivery.PathLib MarineDelivery.Errors MarineDelivery.Common MarineDelivery.Segments

/-! ### Places in the ingestion bucket -/

/-- `"data/{delivery_id}/{product_id}/{dataset_id}/{file_name}"`. -/
def newDataBucketPath (deliveryId productId datasetId fileName : String) : String :=
  "data/" ++ deliveryId ++ "/" ++ productId ++ "/" ++ datasetId ++ "/" ++ fileName

lemma newDataBucketPath_inj {did pid ds s t : String} :
    newDataBucketPath did pid ds s = newDataBucketPath did pid ds t ↔ s = t := by
  rw [← String.toList_inj]
  simp [newDataBucketPath, String.toList_append, String.toList_inj]

/-- A path in the bucket without its first two pieces, `data/{delivery_id}`. -/
def getS3KeySuffix (s3Path : String) : String :=
  "/".intercalate (((s3Path.toList.splitOn '/').map String.ofList).drop 2)

/-! ### Requests -/

structure Upload where
  files : List String
  anchor : Option String := none
  deriving DecidableEq

structure Delete where
  files : List String
  deriving DecidableEq

/-- An element of the list given to `delivery`. -/
inductive RequestedOperation
  | upload (u : Upload)
  | delete (d : Delete)
  deriving DecidableEq

structure FileToUpload where
  fileSizeMb : ℚ
  localPath : String
  deriving DecidableEq

/-- An upload operation before its files have a checksum. -/
structure ToUploadOperation where
  files : List FileToUpload := []
  anchor : Option String
  deriving DecidableEq

/-- An operation that has been validated and not processed. -/
inductive PendingOperation
  | delete (op : DeleteOperation)
  | upload (op : ToUploadOperation)
  deriving DecidableEq

/-! ### Results of the uploads -/

structure S3File where
  localPath : PosixPath
  ingestionSystemS3Path : String
  eTag : String
  uploadStartTime : String
  uploadEndTime : String
  deriving DecidableEq

structure PutFilesResult where
  successfulFiles : List S3File := []
  erroredFiles : List ErrorFile := []
  deriving DecidableEq

/-! ### Responses -/

structure BaseResponse where
  deliveryId : Option String := none
  productId : Option String := none
  datasetId : Option String := none
  pushingEntityId : Option String := none
  fatalError : Option String := none
  dryRun : Option Bool := none
  deriving DecidableEq

/-- The order of `sorted` on pairs of a path and a key suffix. -/
def fileLe (a b : PosixPath × String) : Prop :=
  toLex (strParts a.1, a.2) ≤ toLex (strParts b.1, b.2)

instance : DecidableRel fileLe := fun _ _ => inferInstanceAs (Decidable (_ ≤ _))

def sortLists (v : List (PosixPath × String)) : List (PosixPath × String) :=
  v.insertionSort fileLe

structure ResponseUpload extends BaseResponse where
  filesUploaded : List (PosixPath × String) := []
  filesFailed : List ErrorFile := []
  deriving DecidableEq

structure ResponseDelete extends BaseResponse where
  filesToDelete : List DeleteFile := []
  deriving DecidableEq

inductive OperationResponse
  | upload (r : ResponseUpload)
  | delete (r : ResponseDelete)
  deriving DecidableEq

structure ResponseDelivery extends BaseResponse where
  operationsResponses : List OperationResponse := []
  deriving DecidableEq

def ResponseUpload.create (deliveryId productId datasetId pushingEntityId : String)
    (dryRun : Bool) (resultUpload : PutFilesResult) : ResponseUpload where
  deliveryId := deliveryId
  productId := productId
  datasetId := datasetId
  pushingEntityId := pushingEntityId
  dryRun := dryRun
  filesUploaded := sortLists (resultUpload.successfulFiles.map fun file =>
    (file.localPath, getS3KeySuffix file.ingestionSystemS3Path))
  filesFailed := resultUpload.erroredFiles

def ResponseDelete.create (deliveryId productId datasetId pushingEntityId : String)
    (dryRun : Bool) (filesToDelete : List DeleteFile) : ResponseDelete where
  deliveryId := deliveryId
  productId := productId
  datasetId := datasetId
  pushingEntityId := pushingEntityId
  dryRun := dryRun
  filesToDelete := filesToDelete

def ResponseDelivery.create (deliveryId productId datasetId pushingEntityId : String)
    (dryRun : Bool) (operationsResponses : List OperationResponse) : ResponseDelivery where
  deliveryId := deliveryId
  productId := productId
  datasetId := datasetId
  pushingEntityId := pushingEntityId
  dryRun := dryRun
  operationsResponses := operationsResponses

lemma length_sortLists (v : List (PosixPath × String)) : (sortLists v).length = v.length :=
  List.length_insertionSort _ v

instance : IsTrans (PosixPath × String) fileLe := ⟨fun _ _ _ h h' => le_trans h h'⟩
instance : Std.Total fileLe := ⟨fun _ _ => le_total _ _⟩
instance : Std.Antisymm fileLe := ⟨fun a b h h' => by
  have he := toLex.injective (le_antisymm h h')
  obtain ⟨p, k⟩ := a
  obtain ⟨q, l⟩ := b
  obtain ⟨h1, h2⟩ := Prod.mk.inj he
  exact Prod.ext (strParts_injective h1) h2⟩

/-- **The order of arrival does not show**: permuted lists are sorted alike. -/
theorem sortLists_perm {v w : List (PosixPath × String)} (h : v.Perm w) :
    sortLists v = sortLists w := by
  have hperm : (sortLists v).Perm (sortLists w) := calc
    List.Perm (sortLists v) v := List.perm_insertionSort fileLe v
    List.Perm _ w := h
    List.Perm _ (sortLists w) := (List.perm_insertionSort fileLe w).symm
  exact hperm.eq_of_pairwise (fun _ _ _ _ => antisymm) (List.pairwise_insertionSort fileLe v)
    (List.pairwise_insertionSort fileLe w)

/-! ### Configuration -/

structure OIDCConfig where
  oidcProviderUrl : String
  oidcClientId : String
  scope : String := "openid"
  grantType : String := "password"
  deriving DecidableEq

structure APILimits where
  maxNumberOfFilesPerDelivery : ℤ
  maxDeliverySizeGb : ℚ
  maxFileSizeGb : ℚ
  deriving DecidableEq

structure GetConfigResponse where
  oidcConfig : OIDCConfig
  apiLimits : APILimits
  deriving DecidableEq

structure GetPushingEntityConfigResponse where
  pushingEntity : PushingEntity
  s3EndpointUrl : String
  deriving DecidableEq

end MarineDelivery.Domain
