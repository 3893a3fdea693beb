import Mathlib.Algebra.Order.BigOperators.Group.List
import Mathlib.Data.Rat.Floor
import MarineDelivery.Manifest

/-!
The limits of a delivery, before the uploads and on the manifest.

The nested loops of the check count what the sizes of all files give, so that neither the order
of the files nor their grouping shows. The manifest lists some of the files with their sizes
rounded down, and stays within the limits.
-/

namespace MarineDelivery.Limits

open MarineDelivery.PathLib MarineDelivery.Errors MarineDelivery.Common MarineDelivery.Domain
open MarineDelivery.Validation MarineDelivery.OrderedDict MarineDelivery.Traced
open MarineDelivery.Core MarineDelivery.Manifest

/-- The three limits on files of these sizes, in megabytes. -/
structure Within (limits : APILimits) (sizes : List ℚ) : Prop where
  number : (sizes.length : ℤ) ≤ limits.maxNumberOfFilesPerDelivery
  total : sizes.sum ≤ limits.maxDeliverySizeGb * 1024
  each : ∀ size ∈ sizes, size ≤ limits.maxFileSizeGb * 1024

/-- The files of a delivery, whatever the operation. -/
def allFiles (operations : List ToUploadOperation) : List FileToUpload :=
  operations.flatMap (·.files)

def limitRaised : Except PyError Unit → Option String
  | .error (.invalidDeliverySizeError limit _) => some limit
  | _ => none

/-! ### The loops -/

lemma foldl_add (m : ℚ) (t : SizeTally) (files : List FileToUpload) :
    files.foldl (SizeTally.add m) t =
      ⟨t.numberOfFilesInDelivery + files.length,
        t.deliverySizeInGb + (files.map (·.fileSizeMb)).sum / 1024,
        t.filesAboveFileLimit ++ files.filter fun f => f.fileSizeMb > m⟩ := by
  induction files generalizing t with
  | nil => simp
  | cons f files ih =>
      have hnumber : t.numberOfFilesInDelivery + 1 + files.length =
          t.numberOfFilesInDelivery + (f :: files).length := by
        rw [List.length_cons]
        omega
      have htotal : t.deliverySizeInGb + f.fileSizeMb / 1024 +
            (files.map (·.fileSizeMb)).sum / 1024 =
          t.deliverySizeInGb + ((f :: files).map (·.fileSizeMb)).sum / 1024 := by
        rw [List.map_cons, List.sum_cons]
        ring
      rw [List.foldl_cons, ih]
      simp only [SizeTally.add, hnumber, htotal]
      by_cases hm : f.fileSizeMb > m
      · simp [hm]
      · simp [hm]

/-- **The check in closed form**: one number, one sum and one filter over all files. -/
theorem validateDeliverySizes_eq (limits : APILimits) (operations : List ToUploadOperation) :
    validateDeliverySizes limits operations =
      if ((allFiles operations).length : ℤ) > limits.maxNumberOfFilesPerDelivery then
        .error (.invalidDeliverySizeError "Maximum number of files exceeded"
          (.numberOfFiles (allFiles operations).length limits.maxNumberOfFilesPerDelivery))
      else if ((allFiles operations).map (·.fileSizeMb)).sum / 1024 >
          limits.maxDeliverySizeGb then
        .error (.invalidDeliverySizeError "Maximum delivery size exceeded"
          (.deliverySize (((allFiles operations).map (·.fileSizeMb)).sum / 1024)
            limits.maxDeliverySizeGb))
      else if (allFiles operations).filter (fun f =>
          f.fileSizeMb > limits.maxFileSizeGb * 1024) ≠ [] then
        .error (.invalidDeliverySizeError "Maximum file size exceeded"
          (.fileSizes limits.maxFileSizeGb (((allFiles operations).filter fun f =>
            f.fileSizeMb > limits.maxFileSizeGb * 1024).map fun file =>
              (file.localPath, file.fileSizeMb))))
      else .ok () := by
  have htally : operations.foldl (fun t operation =>
        operation.files.foldl (SizeTally.add (limits.maxFileSizeGb * 1024)) t) {} =
      (allFiles operations).foldl (SizeTally.add (limits.maxFileSizeGb * 1024)) {} := by
    rw [allFiles, List.foldl_flatMap]
  unfold validateDeliverySizes
  simp only [htally]
  simp only [foldl_add, zero_add, List.nil_append]

/-! ### Acceptance -/

lemma filter_above_eq_nil_iff {m : ℚ} {files : List FileToUpload} :
    files.filter (fun f => f.fileSizeMb > m) = [] ↔
      ∀ size ∈ files.map (·.fileSizeMb), size ≤ m := by
  rw [List.filter_eq_nil_iff]
  simp

lemma validateDeliverySizes_ok_iff {limits : APILimits} {operations : List ToUploadOperation} :
    validateDeliverySizes limits operations = .ok () ↔
      Within limits ((allFiles operations).map (·.fileSizeMb)) := by
  have htotal : ((allFiles operations).map (·.fileSizeMb)).sum / 1024 ≤
        limits.maxDeliverySizeGb ↔
      ((allFiles operations).map (·.fileSizeMb)).sum ≤ limits.maxDeliverySizeGb * 1024 :=
    div_le_iff₀ (by norm_num)
  rw [validateDeliverySizes_eq]
  constructor
  · intro h
    split_ifs at h with hnumber hsize heach
    exact ⟨by simpa using hnumber, htotal.mp (not_lt.mp hsize),
      filter_above_eq_nil_iff.mp (not_not.mp heach)⟩
  · rintro ⟨hnumber, hsize, heach⟩
    rw [List.length_map] at hnumber
    rw [if_neg (not_lt.mpr hnumber), if_neg (not_lt.mpr (htotal.mpr hsize)),
      if_neg (not_not.mpr (filter_above_eq_nil_iff.mpr heach))]

lemma limitRaised_validateDeliverySizes (limits : APILimits)
    (operations : List ToUploadOperation) :
    limitRaised (validateDeliverySizes limits operations) =
      if ((allFiles operations).length : ℤ) > limits.maxNumberOfFilesPerDelivery then
        some "Maximum number of files exceeded"
      else if ((allFiles operations).map (·.fileSizeMb)).sum / 1024 >
          limits.maxDeliverySizeGb then some "Maximum delivery size exceeded"
      else if (allFiles operations).filter (fun f =>
          f.fileSizeMb > limits.maxFileSizeGb * 1024) ≠ [] then some "Maximum file size exceeded"
      else none := by
  rw [validateDeliverySizes_eq]
  split_ifs <;> rfl

/-- **Order and grouping do not show.** -/
theorem validateDeliverySizes_perm {limits : APILimits}
    {operations operations' : List ToUploadOperation}
    (h : (allFiles operations).Perm (allFiles operations')) :
    limitRaised (validateDeliverySizes limits operations) =
        limitRaised (validateDeliverySizes limits operations') ∧
      (validateDeliverySizes limits operations = .ok () ↔
        validateDeliverySizes limits operations' = .ok ()) := by
  have hsizes := h.map (·.fileSizeMb)
  have hlength := h.length_eq
  have hsum := hsizes.sum_eq
  have hfilter : (allFiles operations).filter (fun f =>
        f.fileSizeMb > limits.maxFileSizeGb * 1024) = [] ↔
      (allFiles operations').filter (fun f =>
        f.fileSizeMb > limits.maxFileSizeGb * 1024) = [] := by
    rw [filter_above_eq_nil_iff, filter_above_eq_nil_iff]
    simp only [hsizes.mem_iff]
  constructor
  · simp only [limitRaised_validateDeliverySizes, hlength, hsum, ne_eq, hfilter]
  · rw [validateDeliverySizes_ok_iff, validateDeliverySizes_ok_iff]
    constructor
    · rintro ⟨hn, ht, he⟩
      exact ⟨hsizes.length_eq ▸ hn, hsum ▸ ht, fun s hs => he s (hsizes.mem_iff.mpr hs)⟩
    · rintro ⟨hn, ht, he⟩
      exact ⟨hsizes.length_eq ▸ hn, hsum ▸ ht, fun s hs => he s (hsizes.mem_iff.mp hs)⟩

/-! ### The manifest -/

lemma pyInt_eq_floor {q : ℚ} (h : 0 ≤ q) : pyInt q = ⌊q⌋ := by
  have hnum : 0 ≤ q.num := Rat.num_nonneg.mpr h
  rw [pyInt, Int.tdiv_eq_ediv_of_nonneg hnum, Rat.floor_def']

/-- Rounded sizes of some of the files are within the limits when the sizes are. -/
lemma Within.of_sublist {limits : APILimits} {sizes listed : List ℚ} (h : Within limits sizes)
    (hsub : listed.Sublist sizes) (hpos : ∀ size ∈ sizes, 0 ≤ size) :
    Within limits (listed.map fun size => (pyInt size : ℚ)) := by
  have hfloor : ∀ size ∈ listed, (pyInt size : ℚ) ≤ size := by
    intro size hsize
    rw [pyInt_eq_floor (hpos size (hsub.subset hsize))]
    exact Int.floor_le size
  refine ⟨?_, ?_, ?_⟩
  · have hlen : (listed.length : ℤ) ≤ sizes.length := by exact_mod_cast hsub.length_le
    rw [List.length_map]
    exact hlen.trans h.number
  · calc (listed.map fun size => (pyInt size : ℚ)).sum
        ≤ (listed.map id).sum := List.sum_le_sum hfloor
      _ = listed.sum := by rw [List.map_id]
      _ ≤ sizes.sum := hsub.sum_le_sum hpos
      _ ≤ limits.maxDeliverySizeGb * 1024 := h.total
  · intro size hsize
    obtain ⟨s, hs, rfl⟩ := List.mem_map.mp hsize
    exact (hfloor s hs).trans (h.each s (hsub.subset hs))

lemma filterMap_fst_sublist {β : Type*} (find : FileToUpload → Option β)
    (files : List FileToUpload) :
    ((files.filterMap fun f => (find f).map (f, ·)).map Prod.fst).Sublist files := by
  induction files with
  | nil => exact List.Sublist.refl _
  | cons f files ih =>
      rw [List.filterMap_cons]
      cases find f with
      | none => exact ih.cons f
      | some found => exact ih.cons_cons f

lemma manifestFiles_sizes {ds : String} {found : List (FileToUpload × S3File)}
    {entries : List UploadFile}
    (h : List.Forall₂ (fun x entry => manifestFile ds x.1 x.2 = .ok entry) found entries) :
    entries.map (·.fileSizeMb) = (found.map Prod.fst).map fun f => pyInt f.fileSizeMb := by
  induction h with
  | nil => rfl
  | cons hentry _ ih =>
      have hsize := congrArg UploadFile.fileSizeMb (manifestFile_ok_iff.mp hentry).2
      rw [List.map_cons, List.map_cons, List.map_cons, ih, hsize]

/-- An operation of the manifest lists some files of its request, with their sizes as
integers. -/
lemma build_sizes {op : ToUploadOperation} {putFilesResult : PutFilesResult} {ds : String}
    {operation : UploadOperation}
    (h : buildUploadOperationFromPutResults op putFilesResult ds = .ok operation) :
    ∃ listed : List FileToUpload, listed.Sublist op.files ∧
      operation.files.map (·.fileSizeMb) = listed.map fun f => pyInt f.fileSizeMb := by
  unfold buildUploadOperationFromPutResults at h
  simp only [bind_eq_ok, mapM_ok_iff, pure_eq_ok] at h
  obtain ⟨entries, hentries, rfl⟩ := h
  exact ⟨_, filterMap_fst_sublist _ op.files, manifestFiles_sizes hentries⟩

lemma manifest_sizes {operations : List ToUploadOperation}
    {uploaded : List UploadOperation}
    (h : List.Forall₂ (fun op operation => ∃ putFilesResult ds,
      buildUploadOperationFromPutResults op putFilesResult ds = .ok operation) operations
        uploaded) :
    ∃ listed : List FileToUpload, listed.Sublist (allFiles operations) ∧
      (uploaded.flatMap (·.files)).map (·.fileSizeMb) =
        listed.map fun f => pyInt f.fileSizeMb := by
  induction h with
  | nil => exact ⟨[], List.Sublist.refl _, rfl⟩
  | cons hbuild _ ih =>
      obtain ⟨putFilesResult, ds, hbuild⟩ := hbuild
      obtain ⟨first, hfirst, hsizes⟩ := build_sizes hbuild
      obtain ⟨rest, hrest, hsizes'⟩ := ih
      refine ⟨first ++ rest, ?_, ?_⟩
      · rw [allFiles, List.flatMap_cons]
        exact hfirst.append hrest
      · rw [List.flatMap_cons, List.map_append, List.map_append, hsizes, hsizes']

/-- **The limits are enforced exactly.** A delivery is accepted if and only if it is within the
three limits, however its files are ordered and grouped; and what becomes of an accepted
delivery is within the limits, too, whatever the puts and with sizes in whole megabytes. -/
theorem limits_enforced (limits : APILimits) (operations : List ToUploadOperation)
    (hsizes : ∀ file ∈ allFiles operations, 0 ≤ file.fileSizeMb) :
    (validateDeliverySizes limits operations = .ok () ↔
      Within limits ((allFiles operations).map (·.fileSizeMb))) ∧
    (∀ operations', (allFiles operations).Perm (allFiles operations') →
      limitRaised (validateDeliverySizes limits operations) =
          limitRaised (validateDeliverySizes limits operations') ∧
        (validateDeliverySizes limits operations = .ok () ↔
          validateDeliverySizes limits operations' = .ok ())) ∧
    ∀ uploaded, validateDeliverySizes limits operations = .ok () →
      List.Forall₂ (fun op operation => ∃ putFilesResult ds,
        buildUploadOperationFromPutResults op putFilesResult ds = .ok operation) operations
          uploaded →
      Within limits ((uploaded.flatMap (·.files)).map fun file => (file.fileSizeMb : ℚ)) := by
  refine ⟨validateDeliverySizes_ok_iff, fun operations' h => validateDeliverySizes_perm h, ?_⟩
  intro uploaded hok hbuilt
  have hwithin := validateDeliverySizes_ok_iff.mp hok
  obtain ⟨listed, hsub, hmanifest⟩ := manifest_sizes hbuilt
  have hpos : ∀ size ∈ (allFiles operations).map (·.fileSizeMb), 0 ≤ size := by
    intro size hsize
    obtain ⟨file, hfile, rfl⟩ := List.mem_map.mp hsize
    exact hsizes file hfile
  have hround := hwithin.of_sublist (hsub.map (·.fileSizeMb)) hpos
  have heq : (uploaded.flatMap (·.files)).map (fun file => (file.fileSizeMb : ℚ)) =
      (listed.map (·.fileSizeMb)).map fun size => (pyInt size : ℚ) := by
    have hcast := congrArg (List.map fun n : ℤ => (n : ℚ)) hmanifest
    simpa only [List.map_map, Function.comp_def] using hcast
  rwa [heq]

theorem limits_enforced_two :
    (∀ file ∈ allFiles [⟨[⟨1 / 2, "d/a.nc"⟩], none⟩, ⟨[⟨3 / 2, "d/b.nc"⟩], none⟩],
      0 ≤ file.fileSizeMb) ∧
    (validateDeliverySizes ⟨2, 100, 10⟩
        [⟨[⟨1 / 2, "d/a.nc"⟩], none⟩, ⟨[⟨3 / 2, "d/b.nc"⟩], none⟩] = .ok () ↔
      Within ⟨2, 100, 10⟩ ((allFiles
        [⟨[⟨1 / 2, "d/a.nc"⟩], none⟩, ⟨[⟨3 / 2, "d/b.nc"⟩], none⟩]).map (·.fileSizeMb))) :=
  ⟨by decide +kernel, (limits_enforced ⟨2, 100, 10⟩
    [⟨[⟨1 / 2, "d/a.nc"⟩], none⟩, ⟨[⟨3 / 2, "d/b.nc"⟩], none⟩] (by decide +kernel)).1⟩

end MarineDelivery.Limits
