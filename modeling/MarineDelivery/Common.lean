import Mathlib.Data.List.Infix
import MarineDelivery.Errors

/-!
What the tool and the ingestion service share: the manifest of a delivery, the rule a key
suffix has to follow, and the check of the ids.
-/

namespace MarineDelivery.Common

open MarineDelivery.PathLib MarineDelivery.Errors

/-! ### Key suffixes -/

def forbiddenKeySuffixPatterns : List String := ["../", "//", ":/"]

/-- `os.path.isabs`. -/
def isabs (s : String) : Bool := s.toList.head? = some '/'

/-- `pattern in s`. -/
def contains (s pattern : String) : Bool := pattern.toList <:+: s.toList

def raiseOnWrongKeySuffix (keySuffix : String) : Except PyError Unit :=
  if isabs keySuffix then
    .error (.valueError s!"Invalid key_suffix '{keySuffix}': it must be a relative path.")
  else
    match forbiddenKeySuffixPatterns.find? (contains keySuffix) with
    | some pattern =>
      .error (.valueError s!"Invalid key_suffix '{keySuffix}': it must not contain '{pattern}'.")
    | none => .ok ()

lemma raiseOnWrongKeySuffix_ok_iff {s : String} :
    raiseOnWrongKeySuffix s = .ok () ↔
      isabs s = false ∧ ∀ p ∈ forbiddenKeySuffixPatterns, contains s p = false := by
  unfold raiseOnWrongKeySuffix
  by_cases ha : isabs s = true
  · simp [ha]
  · rw [if_neg ha]
    cases hf : forbiddenKeySuffixPatterns.find? (contains s) with
    | some p =>
        have hp := List.find?_some hf
        have hm := List.mem_of_find?_eq_some hf
        simp only [reduceCtorEq, false_iff, not_and, not_forall]
        exact fun _ => ⟨p, hm, by simp [hp]⟩
    | none =>
        simp only [true_iff]
        exact ⟨by simpa using ha, fun p hp => by simpa using List.find?_eq_none.mp hf p hp⟩

/-- A key suffix the validator has let through. -/
def KeySuffix : Type := {s : String // raiseOnWrongKeySuffix s = .ok ()}

instance : DecidableEq KeySuffix := inferInstanceAs (DecidableEq (Subtype _))

/-- The validator of the field `key_suffix` of a model. -/
def ensureNormalizedKeySuffix (model v : String) : Except PyError KeySuffix :=
  match h : raiseOnWrongKeySuffix v with
  | .ok () => .ok ⟨v, h⟩
  | .error (.valueError reason) => .error (.validationError model "key_suffix" reason)
  | .error e => .error e

lemma ensureNormalizedKeySuffix_ok_iff {model v : String} {k : KeySuffix} :
    ensureNormalizedKeySuffix model v = .ok k ↔ k.1 = v := by
  unfold ensureNormalizedKeySuffix
  split
  · next h =>
    constructor
    · intro e; cases e; rfl
    · rintro rfl; rfl
  all_goals
    next h =>
    refine ⟨nofun, ?_⟩
    rintro rfl
    rw [k.2] at h
    cases h

lemma ensureNormalizedKeySuffix_of_ok {model v : String} (h : raiseOnWrongKeySuffix v = .ok ()) :
    ensureNormalizedKeySuffix model v = .ok ⟨v, h⟩ :=
  ensureNormalizedKeySuffix_ok_iff.mpr rfl

/-! ### The manifest -/

inductive DeliveryStatus
  | pending | validated | failed | published | partiallyFailed
  deriving DecidableEq

inductive OperationNames
  | upload | delete
  deriving DecidableEq

structure UploadFile where
  keySuffix : KeySuffix
  errorMessage : Option String := none
  fileSizeMb : ℤ
  checksum : String
  uploadStartTime : Option String
  uploadEndTime : Option String
  deriving DecidableEq

structure DeleteFile where
  keySuffix : KeySuffix
  errorMessage : Option String := none
  deriving DecidableEq

/-- `UploadFile(...)`: building one runs the validator. -/
def UploadFile.create (keySuffix : String) (fileSizeMb : ℤ) (checksum : String)
    (uploadStartTime uploadEndTime : Option String) : Except PyError UploadFile := do
  let keySuffix ← ensureNormalizedKeySuffix "UploadFile" keySuffix
  return { keySuffix, fileSizeMb, checksum, uploadStartTime, uploadEndTime }

/-- `DeleteFile(...)`. -/
def DeleteFile.create (keySuffix : String) : Except PyError DeleteFile := do
  let keySuffix ← ensureNormalizedKeySuffix "DeleteFile" keySuffix
  return { keySuffix }

structure UploadOperation where
  operation : OperationNames := .upload
  files : List UploadFile := []
  deriving DecidableEq

structure DeleteOperation where
  operation : OperationNames := .delete
  files : List DeleteFile := []
  deriving DecidableEq

inductive Operation
  | upload (op : UploadOperation)
  | delete (op : DeleteOperation)
  deriving DecidableEq

/-- The manifest of a delivery. -/
structure Delivery where
  deliveryId : String
  pushingEntityId : String
  productId : String
  datasetId : String
  operations : List Operation := []
  creationTimestamp : Option String := none
  status : DeliveryStatus := .pending
  statusTimestamp : Option String := none
  errorMessage : Option String := none
  deriving DecidableEq

/-! ### The ids -/

structure Product where
  productId : String
  datasets : List String
  deriving DecidableEq

structure PushingEntity where
  name : String
  bucket : String
  products : List Product
  deriving DecidableEq

def validateDeliveryIds (pushingEntityId productId datasetId : String)
    (pushingEntity : PushingEntity) : Except PyError Unit :=
  match pushingEntity.products.find? (·.productId = productId) with
  | none =>
    .error (.invalidDeliveryIdsError
      (s!"{productId} is not a valid Product ID for {pushingEntityId}. " ++
        "Please ask User Support to register your Product if it is new."))
  | some validProduct =>
    if datasetId ∉ validProduct.datasets then
      .error (.invalidDeliveryIdsError
        (s!"{datasetId} is not a valid Dataset ID for any Product for {pushingEntityId}. " ++
          "Please ask User Support to register your Dataset if it is new."))
    else .ok ()

end MarineDelivery.Common
