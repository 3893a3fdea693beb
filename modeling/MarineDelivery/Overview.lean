import Mathlib.Algebra.BigOperators.Group.List.Basic
import Mathlib.Tactic.Ring
import MarineDelivery.ManifestJson

/-!
What is shown of a delivery.

The loops over the operations and their files carry a text and some counts along. The counts
are told apart from the text here: each is a sum over the operations.
-/

namespace MarineDelivery.Overview

open MarineDelivery.Errors MarineDelivery.Common MarineDelivery.Validation
open MarineDelivery.ManifestJson (DeliveryStatus.value)

/-- `str` of a text or `None`. -/
def textOf (s : Option String) : String := s.getD "None"

/-! ### Operations -/

structure GetSummaryResponse where
  message : String
  failedUploads : ℕ
  failedDeletes : ℕ
  totalUploads : ℕ
  totalVolumes : ℤ
  totalDeletes : ℕ

/-- `DeliveryFile.get_summary`. -/
def fileSummary (keySuffix : KeySuffix) (errorMessage : Option String) : String :=
  let summary := s!"\t\tfile: {keySuffix.1}"
  let summary := match truthy errorMessage with
    | some errorMessage => summary ++ s!", ERROR {errorMessage}"
    | none => summary
  s!"{summary}\n"

/-- `get_errored_file_names`, for files given by key suffix and error message. -/
def erroredFileNames (files : List (KeySuffix × Option String)) : List (KeySuffix × String) :=
  files.filterMap fun file => (truthy file.2).map (file.1, ·)

def UploadOperation.getErroredFileNames (self : UploadOperation) : List (KeySuffix × String) :=
  erroredFileNames (self.files.map fun file => (file.keySuffix, file.errorMessage))

def DeleteOperation.getErroredFileNames (self : DeleteOperation) : List (KeySuffix × String) :=
  erroredFileNames (self.files.map fun file => (file.keySuffix, file.errorMessage))

def UploadOperation.totalSize (self : UploadOperation) : ℤ :=
  (self.files.map (·.fileSizeMb)).sum

def UploadOperation.getSummary (self : UploadOperation) : GetSummaryResponse where
  message := self.files.foldl
    (fun message file => message ++ fileSummary file.keySuffix file.errorMessage)
    "\t[UPLOAD OPERATION]\n"
  failedUploads := (UploadOperation.getErroredFileNames self).length
  failedDeletes := 0
  totalUploads := self.files.length
  totalVolumes := UploadOperation.totalSize self
  totalDeletes := 0

def DeleteOperation.getSummary (self : DeleteOperation) : GetSummaryResponse where
  message := self.files.foldl
    (fun message file => message ++ fileSummary file.keySuffix file.errorMessage)
    "\t[DELETE OPERATION]\n"
  failedUploads := 0
  failedDeletes := (DeleteOperation.getErroredFileNames self).length
  totalUploads := 0
  totalVolumes := 0
  totalDeletes := self.files.length

def Operation.getSummary : Operation → GetSummaryResponse
  | .upload op => UploadOperation.getSummary op
  | .delete op => DeleteOperation.getSummary op

/-! ### Deliveries -/

/-- The variables of the loop over the operations. -/
structure Totals extends GetSummaryResponse where
  failedOrPartiallyFailedOperations : ℕ

def Totals.zero : Totals := ⟨⟨"", 0, 0, 0, 0, 0⟩, 0⟩

/-- One turn of the loop. -/
def Totals.add (totals : Totals) (summary : GetSummaryResponse) : Totals where
  message := totals.message ++ summary.message
  failedUploads := totals.failedUploads + summary.failedUploads
  failedDeletes := totals.failedDeletes + summary.failedDeletes
  totalUploads := totals.totalUploads + summary.totalUploads
  totalVolumes := totals.totalVolumes + summary.totalVolumes
  totalDeletes := totals.totalDeletes + summary.totalDeletes
  failedOrPartiallyFailedOperations := totals.failedOrPartiallyFailedOperations +
    if summary.failedUploads ≠ 0 ∨ summary.failedDeletes ≠ 0 then 1 else 0

def totals (d : Delivery) : Totals :=
  d.operations.foldl (fun totals op => totals.add (Operation.getSummary op)) .zero

def Delivery.getSummary (d : Delivery) (showAll : Bool) : String :=
  let totals := totals d
  let toPrint := s!"[DELIVERY] {d.deliveryId} for pushing entity {d.pushingEntityId}\n" ++
    s!"\tproduct_id: {d.productId}\n" ++
    s!"\tdataset_id: {d.datasetId}\n" ++
    s!"\tstatus: {DeliveryStatus.value d.status}\n" ++
    s!"\tcreated at: {textOf d.creationTimestamp}\n" ++
    s!"\ttotal uploads: {totals.totalUploads}\n" ++
    s!"\ttotal volume (MB): {totals.totalVolumes}\n" ++
    s!"\terrored uploads: {totals.failedUploads}\n" ++
    s!"\ttotal deletes: {totals.totalDeletes}\n" ++
    s!"\terrored deletes: {totals.failedDeletes}\n"
  let toPrint :=
    if totals.failedOrPartiallyFailedOperations ≠ 0 then
      toPrint ++ s!"\n\tWARNING: {totals.failedDeletes + totals.failedUploads} file(s) failed." ++
        s!" {totals.failedOrPartiallyFailedOperations} operation(s) errored or partially " ++
        "errored.\n\n" ++ if showAll then "" else "\tUse --show-all to see which files errored.\n"
    else toPrint
  if showAll then toPrint ++ totals.message else toPrint

/-- `__str__`. -/
def Delivery.str (d : Delivery) : String := Delivery.getSummary d false

/-! ### The counts -/

/-- What a loop adds up is a sum. -/
lemma foldl_eq_add_sum {σ α M : Type} [AddMonoid M] {step : σ → α → σ} {count : σ → M}
    {g : α → M} (h : ∀ s a, count (step s a) = count s + g a) (l : List α) (s : σ) :
    count (l.foldl step s) = count s + (l.map g).sum := by
  induction l generalizing s with
  | nil => simp
  | cons a l ih => rw [List.foldl_cons, ih, h, List.map_cons, List.sum_cons, add_assoc]

/-- A count of a delivery is the sum of the counts of its operations. -/
lemma totals_eq_sum {M : Type} [AddMonoid M] {count : Totals → M}
    {g : GetSummaryResponse → M} (hzero : count .zero = 0)
    (h : ∀ totals summary, count (totals.add summary) = count totals + g summary)
    (d : Delivery) :
    count (totals d) = (d.operations.map fun op => g (Operation.getSummary op)).sum := by
  have hloop := foldl_eq_add_sum (fun t op => h t (Operation.getSummary op)) d.operations .zero
  rwa [hzero, zero_add] at hloop

end MarineDelivery.Overview
