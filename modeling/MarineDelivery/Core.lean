import MarineDelivery.DeliveryId
import MarineDelivery.S3
import MarineDelivery.Validation

/-!
The three calls of the tool: `upload`, `delete` and `delivery`.

A call identifies the pushing entity, validates what it was given, uploads the files of its
upload operations one operation after the other, and POSTs one manifest at the end. All it
meets outside — the file system, the services, the clock — is in a `World`, and what becomes
of the puts in an `Uploads`.
-/

namespace MarineDelivery.Core

open MarineDelivery.PathLib MarineDelivery.PathLib.PosixPath MarineDelivery.Errors
open MarineDelivery.Common MarineDelivery.Domain MarineDelivery.Validation MarineDelivery.S3
open MarineDelivery.OrderedDict MarineDelivery.Traced MarineDelivery.DeliveryId

/-- `int(x)`: towards zero. -/
def pyInt (q : ℚ) : ℤ := q.num.tdiv q.den

/-- The arguments of a call, its files apart. -/
structure CallArgs where
  productId : String
  datasetId : String
  raiseOnUploadError : Bool
  maxConcurrentUploads : ℤ
  chunkSizeBytes : ℤ
  chunkConcurrency : ℤ
  dryRun : Bool
  onBehalfOf : Option String

/-- What a call finds outside. The token is fetched twice, at the start and before the POST,
and the listing of the bucket gives the text of its exception when it fails. -/
structure World where
  fileSystem : FileSystem
  getConfig : Except PyError GetConfigResponse
  fetchKeycloakToken : GetConfigResponse → Except PyError String
  getPushingEntityConfig :
    String → Option String → Except PyError GetPushingEntityConfigResponse
  listObjects : S3Client → Option String
  now : LocalTime
  randomNumber : RandomNumber
  fetchKeycloakTokenAtPost : GetConfigResponse → Except PyError String
  post : String → Delivery → Except PyError Unit

/-! ### Before the first put -/

/-- `os.path.getsize`. -/
def getsize (fs : FileSystem) (file : String) : Except PyError ℕ :=
  match fs.stat file with
  | some size => .ok size
  | none => .error (.osError s!"No such file or directory: '{file}'")

def createAndValidateToUploadOperation (fs : FileSystem) (files : List String)
    (datasetId productId : String) (anchor : Option String) :
    Except PyError ToUploadOperation := do
  validateUploadFiles fs files datasetId productId anchor
  let files ← files.mapM fun file => do
    let size ← getsize fs file
    return { localPath := file, fileSizeMb := size / (1024 * 1024) : FileToUpload }
  return { files, anchor }

def createAndValidateDeleteOperation (files : List String) : Except PyError DeleteOperation := do
  validateDeleteFiles files
  let files ← files.mapM DeleteFile.create
  return { files }

def assertBucketExists (world : World) (client : S3Client) : Except PyError Unit :=
  match world.listObjects client with
  | none => .ok ()
  | some text =>
    if contains text "NoSuchBucket" then
      .error (.noSuchBucketException s!"Bucket does not exist: {client.bucketName}")
    else if contains text "ConnectionRefused" then
      .error (.connectionRefusedException s!"Can't connect to bucket: {client.bucketName}")
    else .error (.other text)

def getS3IngestionClient (world : World) (pushingEntityId bucketName endpointUrl : String)
    (onBehalfOf : Option String) (chunkConcurrency : ℤ) : Except PyError S3Client := do
  let client : S3Client :=
    ⟨bucketName, endpointUrl, pushingEntityId, onBehalfOf, chunkConcurrency⟩
  assertBucketExists world client
  return client

/-- The first lines of every call: the configuration, the pushing entity, the ids. -/
def identify (world : World) (args : CallArgs) :
    Except PyError (GetConfigResponse × GetPushingEntityConfigResponse) := do
  let config ← world.getConfig
  let token ← world.fetchKeycloakToken config
  let pushingEntityConfig ← world.getPushingEntityConfig token (truthy args.onBehalfOf)
  validateDeliveryIds pushingEntityConfig.pushingEntity.name args.productId args.datasetId
    pushingEntityConfig.pushingEntity
  return (config, pushingEntityConfig)

/-! ### The files of an operation -/

def getLocalPathS3KeysMapping (listOfFiles : List String)
    (deliveryId productId datasetId : String) (anchor : Option String) :
    Except PyError (Dict PosixPath String) := do
  let pairs ← listOfFiles.mapM fun filePath => do
    let fileName ← localPathToKeySuffix filePath anchor
    return (ofString filePath, newDataBucketPath deliveryId productId datasetId fileName)
  return Dict.ofList pairs

/-- The entry of the manifest for a file that has been uploaded. -/
def manifestFile (datasetId : String) (fileToUpload : FileToUpload)
    (successfulS3File : S3File) : Except PyError UploadFile := do
  let keySuffix ← localPathToKeySuffix successfulS3File.ingestionSystemS3Path (some datasetId)
  UploadFile.create keySuffix (pyInt fileToUpload.fileSizeMb) successfulS3File.eTag
    (some successfulS3File.uploadStartTime) (some successfulS3File.uploadEndTime)

/-- A requested file that is not found among the successful ones is left out. -/
def buildUploadOperationFromPutResults (toUploadOperation : ToUploadOperation)
    (putFilesResult : PutFilesResult) (datasetId : String) : Except PyError UploadOperation := do
  let successfulFilesDict := Dict.ofList
    (putFilesResult.successfulFiles.map fun file => (file.localPath.str, file))
  let found := toUploadOperation.files.filterMap fun fileToUpload =>
    (successfulFilesDict.get? fileToUpload.localPath).map (fileToUpload, ·)
  let files ← found.mapM fun x => manifestFile datasetId x.1 x.2
  return { files }

/-- What `_put_files_to_ingestion_system` does once the files have been uploaded. -/
def concludeUploads (toUploadOperation : ToUploadOperation) (datasetId : String)
    (putFilesResult : PutFilesResult) : Except PyError (PutFilesResult × UploadOperation) :=
  if putFilesResult.successfulFiles = [] then
    .error (.noSuccessfulUploadsError putFilesResult.erroredFiles)
  else do
    let operation ←
      buildUploadOperationFromPutResults toUploadOperation putFilesResult datasetId
    return (putFilesResult, operation)

def putFilesToIngestionSystem (uploads : Uploads) (operation : ℕ) (s3Client : S3Client)
    (deliveryId : String) (args : CallArgs) (anchor : Option String)
    (toUploadOperation : ToUploadOperation) :
    Comp Event PyError (PutFilesResult × UploadOperation) := do
  let localPathS3KeysMapping ← Comp.lift (getLocalPathS3KeysMapping
    (toUploadOperation.files.map (·.localPath)) deliveryId args.productId args.datasetId anchor)
  let putFilesResult ← uploadMultipleFiles s3Client uploads operation localPathS3KeysMapping
    args.raiseOnUploadError args.chunkSizeBytes args.maxConcurrentUploads args.dryRun
  Comp.lift (concludeUploads toUploadOperation args.datasetId putFilesResult)

/-! ### The delivery -/

def createDelivery (pushingEntityId productId datasetId : String) (operations : List Operation)
    (deliveryId : String) : Delivery where
  deliveryId := deliveryId
  pushingEntityId := pushingEntityId
  productId := productId
  datasetId := datasetId
  operations := operations

def createAndUploadDelivery (world : World) (pushingEntityId productId datasetId : String)
    (operations : List Operation) (dryRun : Bool) (config : GetConfigResponse)
    (deliveryId : Option String) : Comp Event PyError Delivery := do
  let deliveryId := (truthy deliveryId).getD
    (createDeliveryId world.now world.randomNumber productId)
  let delivery := createDelivery pushingEntityId productId datasetId operations deliveryId
  if dryRun then pure delivery
  else do
    let token ← Comp.lift (world.fetchKeycloakTokenAtPost config)
    Comp.emit [.posted delivery]
    Comp.lift (world.post token delivery)
    pure delivery

/-! ### The calls -/

def upload (world : World) (uploads : Uploads) (args : CallArgs) (files : List String)
    (anchor : Option String) : Comp Event PyError (ResponseUpload × Delivery) := do
  let (config, pushingEntityConfig) ← Comp.lift (identify world args)
  let pushingEntityId := pushingEntityConfig.pushingEntity.name
  let toUploadOperation ← Comp.lift (createAndValidateToUploadOperation world.fileSystem files
    args.datasetId args.productId anchor)
  Comp.lift (validateDeliverySizes config.apiLimits [toUploadOperation])
  let s3Client ← Comp.lift (getS3IngestionClient world pushingEntityId
    pushingEntityConfig.pushingEntity.bucket pushingEntityConfig.s3EndpointUrl args.onBehalfOf
    args.chunkConcurrency)
  let deliveryId := createDeliveryId world.now world.randomNumber args.productId
  let (putFilesResult, uploadOperation) ← putFilesToIngestionSystem uploads 0 s3Client
    deliveryId args anchor toUploadOperation
  let delivery ← createAndUploadDelivery world pushingEntityId args.productId args.datasetId
    [.upload uploadOperation] args.dryRun config (some deliveryId)
  return (ResponseUpload.create delivery.deliveryId args.productId args.datasetId
    pushingEntityId args.dryRun putFilesResult, delivery)

def delete (world : World) (args : CallArgs) (files : List String) :
    Comp Event PyError (ResponseDelete × Delivery) := do
  let (config, pushingEntityConfig) ← Comp.lift (identify world args)
  let pushingEntityId := pushingEntityConfig.pushingEntity.name
  let deleteOperation ← Comp.lift (createAndValidateDeleteOperation files)
  let delivery ← createAndUploadDelivery world pushingEntityId args.productId args.datasetId
    [.delete deleteOperation] args.dryRun config none
  return (ResponseDelete.create delivery.deliveryId args.productId args.datasetId
    pushingEntityId args.dryRun deleteOperation.files, delivery)

/-- One turn of the first loop of `delivery`. -/
def validateOperation (fs : FileSystem) (args : CallArgs) :
    RequestedOperation → Except PyError PendingOperation
  | .delete operation => do
    let operation ← createAndValidateDeleteOperation operation.files
    return .delete operation
  | .upload operation => do
    let toUploadOperation ← createAndValidateToUploadOperation fs operation.files
      args.datasetId args.productId operation.anchor
    return .upload toUploadOperation

/-- The operations `validate_delivery_sizes` is given. -/
def toUploadOperations (pendingOperations : List PendingOperation) : List ToUploadOperation :=
  pendingOperations.filterMap fun
    | .upload operation => some operation
    | .delete _ => none

/-- One turn of the second loop of `delivery`: the operation of the manifest, and the
response. -/
def processOperation (uploads : Uploads) (s3Client : S3Client)
    (pushingEntityId deliveryId : String) (args : CallArgs) (position : ℕ) :
    PendingOperation → Comp Event PyError (Operation × OperationResponse)
  | .delete operation =>
    pure (.delete operation, .delete (ResponseDelete.create deliveryId args.productId
      args.datasetId pushingEntityId args.dryRun operation.files))
  | .upload operation => do
    let (putFilesResult, uploadOperation) ← putFilesToIngestionSystem uploads position s3Client
      deliveryId args operation.anchor operation
    pure (.upload uploadOperation, .upload (ResponseUpload.create deliveryId args.productId
      args.datasetId pushingEntityId args.dryRun putFilesResult))

def delivery (world : World) (uploads : Uploads) (args : CallArgs)
    (operations : List RequestedOperation) :
    Comp Event PyError (ResponseDelivery × Delivery) := do
  let (config, pushingEntityConfig) ← Comp.lift (identify world args)
  let pushingEntityId := pushingEntityConfig.pushingEntity.name
  let deliveryId := createDeliveryId world.now world.randomNumber args.productId
  let s3Client ← Comp.lift (getS3IngestionClient world pushingEntityId
    pushingEntityConfig.pushingEntity.bucket pushingEntityConfig.s3EndpointUrl args.onBehalfOf
    args.chunkConcurrency)
  let pendingOperations ← Comp.lift (operations.mapM (validateOperation world.fileSystem args))
  Comp.lift (validateDeliverySizes config.apiLimits (toUploadOperations pendingOperations))
  let processed ← Comp.eachFrom
    (processOperation uploads s3Client pushingEntityId deliveryId args) 0 pendingOperations
  let delivery ← createAndUploadDelivery world pushingEntityId args.productId args.datasetId
    (processed.map Prod.fst) args.dryRun config (some deliveryId)
  return (ResponseDelivery.create deliveryId args.productId args.datasetId pushingEntityId
    args.dryRun (processed.map Prod.snd), delivery)

/-! ### A small world, for examples -/

def exampleNow : LocalTime :=
  ⟨2025, 1, 2, 3, 4, 5, by decide, by decide, by decide, by decide, by decide, by decide⟩

def exampleNumber : RandomNumber := ⟨1234, by decide⟩

def exampleWorld (sizes : List (String × ℕ)) : World where
  fileSystem := ⟨fun file => sizes.lookup file⟩
  getConfig := .ok ⟨⟨"idp.example", "toolbox", "openid", "password"⟩, ⟨100, 10, 5⟩⟩
  fetchKeycloakToken _ := .ok "token"
  getPushingEntityConfig _ _ :=
    .ok ⟨⟨"entity", "ingestion", [⟨"prod", ["dset"]⟩]⟩, "https://s3.example"⟩
  listObjects _ := none
  now := exampleNow
  randomNumber := exampleNumber
  fetchKeycloakTokenAtPost _ := .ok "token"
  post _ _ := .ok ()

def exampleArgs : CallArgs where
  productId := "prod"
  datasetId := "dset"
  raiseOnUploadError := false
  maxConcurrentUploads := 5
  chunkSizeBytes := 16777216
  chunkConcurrency := 6
  dryRun := false
  onBehalfOf := none

def exampleClient : S3Client := ⟨"ingestion", "https://s3.example", "entity", none, 6⟩

/-- Uploads that end in the order they are asked for, every put with the same end. -/
def exampleUploads (attempt : PutAttempt) : Uploads where
  run _ _ := ⟨⟨"10:00", "10:01"⟩, fun _ => attempt⟩
  completed _ items := items
  completed_perm _ _ := .refl _

lemma verdict_exampleUploads (n : ℕ) (p : PosixPath) :
    verdict false ((exampleUploads (.success (some "t1"))).run n p) = .ok "t1" := by
  show verdict false ⟨⟨"10:00", "10:01"⟩, fun _ => .success (some "t1")⟩ = .ok "t1"
  decide +kernel

end MarineDelivery.Core
