import Mathlib.Data.List.Count
import MarineDelivery.Domain
import MarineDelivery.OrderedDict
import MarineDelivery.PathLib
import MarineDelivery.Segments

/-!
What is checked before anything is uploaded: the files of an operation one by one, files
listed twice, and the limits of the delivery.

The key suffix of a file is what follows the first occurrence of the anchor in its path, or
the string of the path as it was given when there is no anchor.
-/

namespace MarineDelivery.Validation

open MarineDelivery.PathLib MarineDelivery.PathLib.PosixPath MarineDelivery.Errors
open MarineDelivery.Common MarineDelivery.Domain MarineDelivery.Segments
open MarineDelivery.OrderedDict

/-- What `os.stat` says the size of a path string is; nothing for a path it fails on. -/
structure FileSystem where
  stat : String → Option ℕ

/-! ### The key suffix of a local path -/

def localPathToKeySuffix (localPath : String) (anchor : Option String) : Except PyError String :=
  match anchor with
  | none => .ok localPath
  | some anchor =>
    match afterFirst anchor (ofString localPath).parts with
    | none => .error (.valueError "tuple.index(x): x not in tuple")
    | some rest => .ok (ofParts rest).str

def acceptableKeySuffix (filePathStr : String) (anchor : Option String) : Bool :=
  match localPathToKeySuffix filePathStr anchor >>= raiseOnWrongKeySuffix with
  | .ok () => true
  | .error _ => false

lemma acceptableKeySuffix_iff {f : String} {anchor : Option String} :
    acceptableKeySuffix f anchor = true ↔
      ∃ s, localPathToKeySuffix f anchor = .ok s ∧ raiseOnWrongKeySuffix s = .ok () := by
  unfold acceptableKeySuffix
  cases localPathToKeySuffix f anchor with
  | error e => simp [bind, Except.bind]
  | ok s =>
      simp only [bind, Except.bind, Except.ok.injEq, exists_eq_left']
      cases raiseOnWrongKeySuffix s <;> simp

/-- What follows an anchor in the parts of a path are components. -/
lemma isComponent_of_afterFirst {p : PosixPath} {a : String} {rest : List String}
    (h : afterFirst a p.parts = some rest) : ∀ c ∈ rest, IsComponent c := by
  obtain ⟨u, hu, -⟩ := afterFirst_eq_some h
  intro c hc
  refine p.tail_mem c ?_
  unfold parts at hu
  split_ifs at hu with hr
  · rw [hu]; simp [hc]
  · rcases u with _ | ⟨x, u⟩
    · obtain ⟨-, rfl⟩ := List.cons.inj hu
      exact hc
    · obtain ⟨-, ht⟩ := List.cons.inj hu
      rw [ht]; simp [hc]

lemma localPathToKeySuffix_some {f a : String} {rest : List String}
    (h : afterFirst a (ofString f).parts = some rest) :
    localPathToKeySuffix f (some a) = .ok (ofParts rest).str := by
  simp [localPathToKeySuffix, h]

lemma localPathToKeySuffix_some_ok_iff {f a s : String} :
    localPathToKeySuffix f (some a) = .ok s ↔
      ∃ rest, afterFirst a (ofString f).parts = some rest ∧ s = (ofParts rest).str := by
  cases h : afterFirst a (ofString f).parts with
  | none => simp [localPathToKeySuffix, h]
  | some rest => simp [localPathToKeySuffix, h, eq_comm]

/-- The suffix under an anchor depends on the path, not on how it is spelled. -/
lemma localPathToKeySuffix_some_congr {f g a : String} (h : ofString f = ofString g) :
    localPathToKeySuffix f (some a) = localPathToKeySuffix g (some a) := by
  simp [localPathToKeySuffix, h]

/-- Behind an anchor stand fewer parts than in the whole path. -/
lemma str_ofParts_ne {f g a : String} {rest : List String} (hp : ofString f = ofString g)
    (h : afterFirst a (ofString g).parts = some rest) : (ofParts rest).str ≠ f := by
  intro he
  have hrest := isComponent_of_afterFirst h
  obtain ⟨hroot, htail⟩ := ofParts_components hrest
  have hparts : (ofString g).parts = rest := by
    rw [← hp, ← he, ofString_str, parts, if_pos hroot, htail]
  obtain ⟨u, hu, -⟩ := afterFirst_eq_some h
  have hlen := congrArg List.length (hu.symm.trans hparts)
  rw [List.length_append, List.length_cons] at hlen
  omega

/-- **The suffix shows the anchor**: one path has different key suffixes under different
anchors. -/
theorem localPathToKeySuffix_inj {f g s : String} {a b : Option String}
    (hp : ofString f = ofString g) (ha : localPathToKeySuffix f a = .ok s)
    (hb : localPathToKeySuffix g b = .ok s) : a = b := by
  cases a with
  | none =>
      obtain rfl := Except.ok.inj ha
      cases b with
      | none => rfl
      | some b =>
          obtain ⟨rest, hrest, hs⟩ := localPathToKeySuffix_some_ok_iff.mp hb
          exact absurd hs.symm (str_ofParts_ne hp hrest)
  | some a =>
      obtain ⟨rest, hrest, hs⟩ := localPathToKeySuffix_some_ok_iff.mp ha
      cases b with
      | none =>
          obtain rfl := Except.ok.inj hb
          exact absurd hs.symm (str_ofParts_ne hp.symm hrest)
      | some b =>
          obtain ⟨rest', hrest', hs'⟩ := localPathToKeySuffix_some_ok_iff.mp hb
          have hpath := str_injective (hs.symm.trans hs')
          have hsame : rest = rest' := by
            rw [← (ofParts_components (isComponent_of_afterFirst hrest)).2, hpath,
              (ofParts_components (isComponent_of_afterFirst hrest')).2]
          rw [hp, hsame] at hrest
          exact congrArg some (afterFirst_inj hrest hrest')

/-! ### The files of an upload -/

def fileExists (fs : FileSystem) (filePath : PosixPath) : Bool := (fs.stat filePath.str).isSome

def fileNotEmpty (fs : FileSystem) (filePath : PosixPath) : Bool :=
  (fs.stat filePath.str).any (0 < ·)

/-- The files that come more than once, in the order in which they first come. -/
def duplicateFiles (files : List String) : List String :=
  (Dict.ofList (files.map fun f => (f, ()))).keys.filter fun f => 1 < files.count f

/-- `if anchor`: neither `None` nor the empty string. -/
def truthy (anchor : Option String) : Option String := anchor.filter (· ≠ "")

lemma truthy_some {s : String} (h : s ≠ "") : truthy (some s) = some s := by
  simp [truthy, Option.filter, h]

/-- One turn of the loop of `validate_upload_files`. An unsupported extension is only
logged, so it does not show here. -/
def invalidUploadFile (fs : FileSystem) (datasetId productId : String) (anchor : Option String)
    (fileStr : String) : Option InvalidFile :=
  let file := ofString fileStr
  let invalid reason := some ⟨⟨file, reason⟩⟩
  if fileExists fs file = false then invalid "File path does not exist."
  else if fileNotEmpty fs file = false then invalid "File is empty."
  else
    match truthy anchor with
    | some anchor =>
      if anchor ∉ file.parts then
        invalid s!"Expected anchor ({anchor}) was not found in local path: {file.str}"
      else none
    | none =>
      if datasetId ∈ file.parts ∨ productId ∈ file.parts then
        invalid (s!"No anchor specified and product_id ({productId}) or dataset_id " ++
          s!"({datasetId}) found in local path: {file.str}. " ++
          "This will most probably produce an invalid S3 MDS suffix. " ++
          "For specific cases, please contact User Support.")
      else if file.isAbsolute then
        invalid (s!"Absolute paths are only allowed if an anchor is given: {file.str}" ++
          "This will most probably produce an invalid S3 MDS suffix. " ++
          "For specific cases, please contact User Support.")
      else if acceptableKeySuffix fileStr anchor = false then
        invalid (s!"Key suffix derived from local path is not acceptable: {file.str}. " ++
          "Forbidden patterns are: ('../', '//', ':/')")
      else none

def duplicateFile (file : String) : InvalidFile := ⟨⟨ofString file, "Duplicate file path."⟩⟩

def validateDeleteFiles (files : List String) : Except PyError Unit :=
  let invalidFiles := (duplicateFiles files).map duplicateFile
  if invalidFiles ≠ [] then .error (.invalidFilesError invalidFiles) else .ok ()

def validateUploadFiles (fs : FileSystem) (files : List String) (datasetId productId : String)
    (anchor : Option String) : Except PyError Unit :=
  let invalidFiles := files.filterMap (invalidUploadFile fs datasetId productId anchor) ++
    (duplicateFiles files).map duplicateFile
  if invalidFiles ≠ [] then .error (.invalidFilesError invalidFiles) else .ok ()

lemma duplicateFiles_eq_nil_iff {files : List String} :
    duplicateFiles files = [] ↔ files.Nodup := by
  rw [duplicateFiles, List.filter_eq_nil_iff, List.nodup_iff_count_le_one]
  have hk : ∀ f, f ∈ (Dict.ofList (files.map fun f => (f, ()))).keys ↔ f ∈ files := fun f => by
    rw [Dict.mem_keys_ofList]; simp
  constructor
  · intro h f
    by_cases hf : f ∈ files
    · simpa using h f ((hk f).mpr hf)
    · simp [List.count_eq_zero.mpr hf]
  · intro h f _
    simpa using h f

lemma validateUploadFiles_ok_iff {fs : FileSystem} {files : List String} {ds pid : String}
    {anchor : Option String} :
    validateUploadFiles fs files ds pid anchor = .ok () ↔
      (∀ f ∈ files, invalidUploadFile fs ds pid anchor f = none) ∧ files.Nodup := by
  rw [← duplicateFiles_eq_nil_iff, ← List.filterMap_eq_nil_iff]
  unfold validateUploadFiles
  by_cases h1 : files.filterMap (invalidUploadFile fs ds pid anchor) = [] <;>
    by_cases h2 : duplicateFiles files = [] <;> simp [h1, h2]

/-- What is known of an accepted file: it is there, and its anchor is one of its parts or it
is a relative path that is a key suffix as it stands. -/
lemma invalidUploadFile_eq_none_iff {fs : FileSystem} {ds pid f : String}
    {anchor : Option String} :
    invalidUploadFile fs ds pid anchor f = none ↔
      fileExists fs (ofString f) = true ∧ fileNotEmpty fs (ofString f) = true ∧
      match truthy anchor with
      | some a => a ∈ (ofString f).parts
      | none => ds ∉ (ofString f).parts ∧ pid ∉ (ofString f).parts ∧
          (ofString f).isAbsolute = false ∧ acceptableKeySuffix f anchor = true := by
  unfold invalidUploadFile
  by_cases he : fileExists fs (ofString f) = true
  swap
  · simp [he]
  by_cases hn : fileNotEmpty fs (ofString f) = true
  swap
  · simp [he, hn]
  simp only [he, hn, Bool.true_eq_false, if_false, true_and]
  cases truthy anchor with
  | some a => by_cases h : a ∈ (ofString f).parts <;> simp [h]
  | none =>
      by_cases h1 : ds ∈ (ofString f).parts
      · simp [h1]
      by_cases h2 : pid ∈ (ofString f).parts
      · simp [h1, h2]
      cases h3 : (ofString f).isAbsolute <;> cases h4 : acceptableKeySuffix f anchor <;>
        simp [h1, h2]

/-- An accepted file has a key suffix. -/
lemma localPathToKeySuffix_of_valid {fs : FileSystem} {ds pid f : String}
    {anchor : Option String} (h : invalidUploadFile fs ds pid anchor f = none) :
    ∃ s, localPathToKeySuffix f anchor = .ok s := by
  obtain ⟨-, -, h⟩ := invalidUploadFile_eq_none_iff.mp h
  cases ht : truthy anchor with
  | none =>
      rw [ht] at h
      obtain ⟨s, hs, -⟩ := acceptableKeySuffix_iff.mp h.2.2.2
      exact ⟨s, hs⟩
  | some a =>
      rw [ht] at h
      obtain ⟨rfl, -⟩ : anchor = some a ∧ _ := Option.filter_eq_some_iff.mp ht
      obtain ⟨u, v, -, -, hv⟩ := afterFirst_of_mem h
      exact ⟨_, localPathToKeySuffix_some hv⟩

/-! ### The limits of a delivery -/

/-- What the loops of `validate_delivery_sizes` count. -/
structure SizeTally where
  numberOfFilesInDelivery : ℕ := 0
  deliverySizeInGb : ℚ := 0
  filesAboveFileLimit : List FileToUpload := []

def SizeTally.add (apiMaxSizeMb : ℚ) (t : SizeTally) (file : FileToUpload) : SizeTally where
  numberOfFilesInDelivery := t.numberOfFilesInDelivery + 1
  deliverySizeInGb := t.deliverySizeInGb + file.fileSizeMb / 1024
  filesAboveFileLimit :=
    if file.fileSizeMb > apiMaxSizeMb then t.filesAboveFileLimit ++ [file]
    else t.filesAboveFileLimit

def validateDeliverySizes (apiLimits : APILimits) (toUploadOperations : List ToUploadOperation) :
    Except PyError Unit :=
  let apiMaxSizeMb := apiLimits.maxFileSizeGb * 1024
  let tally : SizeTally := toUploadOperations.foldl
    (fun t operation => operation.files.foldl (SizeTally.add apiMaxSizeMb) t) {}
  if tally.numberOfFilesInDelivery > apiLimits.maxNumberOfFilesPerDelivery then
    .error (.invalidDeliverySizeError "Maximum number of files exceeded"
      (.numberOfFiles tally.numberOfFilesInDelivery apiLimits.maxNumberOfFilesPerDelivery))
  else if tally.deliverySizeInGb > apiLimits.maxDeliverySizeGb then
    .error (.invalidDeliverySizeError "Maximum delivery size exceeded"
      (.deliverySize tally.deliverySizeInGb apiLimits.maxDeliverySizeGb))
  else if tally.filesAboveFileLimit ≠ [] then
    .error (.invalidDeliverySizeError "Maximum file size exceeded"
      (.fileSizes apiLimits.maxFileSizeGb
        (tally.filesAboveFileLimit.map fun file => (file.localPath, file.fileSizeMb))))
  else .ok ()

end MarineDelivery.Validation
