import Mathlib.Data.Rat.Defs
import MarineDelivery.PathLib

/-!
The exceptions of the tool, with the data they carry.
-/

namespace MarineDelivery.Errors

open MarineDelivery.PathLib

/-- A file that is invalid or that failed, and why. -/
structure ErrorResponseFile where
  localPath : PosixPath
  reason : String
  deriving DecidableEq

structure InvalidFile extends ErrorResponseFile
  deriving DecidableEq

structure ErrorFile extends ErrorResponseFile
  deriving DecidableEq

inductive LimitDetails
  | numberOfFiles (numberOfFilesInDelivery : ℕ) (limit : ℤ)
  | deliverySize (deliverySizeInGb limit : ℚ)
  | fileSizes (limit : ℚ) (filesAboveFileLimit : List (String × ℚ))
  deriving DecidableEq

/-- What is raised. `other` stands for the exceptions of the libraries that the tool neither
catches nor tells apart. -/
inductive PyError
  | invalidDeliveryIdsError (message : String)
  | invalidFilesError (invalidFiles : List InvalidFile)
  | invalidDeliverySizeError (limitRaised : String) (details : LimitDetails)
  | noSuccessfulUploadsError (errorFiles : List ErrorFile)
  | validationError (model field reason : String)
  | valueError (message : String)
  | indexError (message : String)
  | attributeError (message : String)
  | osError (message : String)
  | noSuchBucketException (message : String)
  | connectionRefusedException (message : String)
  | authenticationError (message : String)
  | keyError (key : String)
  | typeError (message : String)
  | other (message : String)
  deriving DecidableEq

end MarineDelivery.Errors
