import MarineDelivery.CommandLine

/-!
The two front ends.

What a command of the command line does is done by a `submit` of the Python interface too. They
read one thing differently: whom to act for where the text given for it is empty. And one thing
is refused by the one and not by the other: a delivery without operations.
-/

namespace MarineDelivery.FrontEnds

open MarineDelivery.Errors MarineDelivery.Common MarineDelivery.Domain
open MarineDelivery.Validation MarineDelivery.Traced MarineDelivery.Models MarineDelivery.S3
open MarineDelivery.Core MarineDelivery.CommandLine

/-- A command and a `submit` do the same to the services, and the command prints the response,
or logs the error: what was raised, or what the response says has stopped the delivery. -/
def SameEnd {ρ : Type} (base : ρ → BaseResponse) (str : ρ → String) (out : Outcome)
    (call : Comp Event PyError ρ) : Prop :=
  out.events = call.events ∧
  match call.result with
  | .ok response =>
    match (base response).fatalError with
    | none => out.exitCode = 0 ∧ out.echoed = [str response]
    | some message => out.exitCode = 1 ∧ out.ownErrors = [.error message]
  | .error e => out.exitCode = 1 ∧ out.ownErrors = [.exception e]

/-- The three commands beside the three methods. -/
structure Alike (files : Files) (world : World) (uploads : Uploads) (env : Option String)
    (o : Options) : Prop where
  onUploads : ∀ source, SameEnd ResponseUpload.toBaseResponse Summaries.ResponseUpload.str
    (CommandLine.upload files world uploads env source o)
    (Interface.Upload.submit world uploads env ⟨source, none⟩ o.toSubmitArgs)
  onDeletes : ∀ source, SameEnd ResponseDelete.toBaseResponse Summaries.ResponseDelete.str
    (CommandLine.delete files world env source o)
    (Interface.Delete.submit world env ⟨source⟩ o.productId o.datasetId o.dryRun
      o.pushingEntityId)
  onDeliveries : ∀ file value operations, files.yamlSafeLoad file = .ok value →
    DeliveryFile.modelValidate value = .ok operations →
    (SameEnd ResponseDelivery.toBaseResponse Summaries.ResponseDelivery.str
      (CommandLine.delivery files world uploads env file o)
      (Interface.Delivery.submit world uploads env ⟨operations⟩ o.toSubmitArgs) ↔
        operations ≠ [])
  onNothing : ∀ file value session token, files.yamlSafeLoad file = .ok value →
    DeliveryFile.modelValidate value = .ok [] → o.dryRun = false →
    Calls.prepareDelivery world (o.callArgs env) [] = .ok (session, []) →
    world.fetchKeycloakTokenAtPost session.config = .ok token →
    (CommandLine.delivery files world uploads env file o).events =
        [.posted (Calls.deliveryOf (o.callArgs env) session [])] ∧
      (Interface.Delivery.submit world uploads env ⟨[]⟩ o.toSubmitArgs).events = []

section

variable {files : Files} {world : World} {uploads : Uploads} {env : Option String} {o : Options}

/-- **Whom they act for**: the same entity, unless the command is given an empty text and the
environment names one. -/
theorem actsFor_eq_iff :
    truthy (o.callArgs env).onBehalfOf = truthy (o.toSubmitArgs.callArgs env).onBehalfOf ↔
      ¬ (o.pushingEntityId = some "" ∧ ∃ entity, entity ≠ "" ∧ env = some entity) := by
  have hempty : truthy (some "") = none := rfl
  have hnone : truthy none = none := rfl
  show truthy (onBehalfOf env o.pushingEntityId) =
    truthy ((truthy o.pushingEntityId).orElse fun _ => env) ↔ _
  unfold onBehalfOf
  rcases o.pushingEntityId with _ | e
  -- nothing is given: both look at the environment
  · rcases env with _ | v
    · simp [hnone]
    · by_cases hv : v = ""
      · simp [hv, hempty, hnone]
      · simp [truthy_some hv, hnone]
  · by_cases he : e = ""
    -- only the method does, after an empty text
    · rcases env with _ | v
      · simp [he, hempty, hnone]
      · by_cases hv : v = ""
        · simp [he, hv, hempty]
        · simp [he, truthy_some hv, hempty, hv]
    · simp [truthy_some he, he]

end

end MarineDelivery.FrontEnds
