import MarineDelivery.Manifest

/-!
The three places of a file: its key in the ingestion bucket, the key suffix its response
shows, and the key suffix the manifest publishes.

The response cuts the key by position, the manifest by looking for the dataset id. Cutting by
position always inverts the key; looking for the dataset id does when the id does not come
earlier in the key.
-/

namespace MarineDelivery.Places

open MarineDelivery.PathLib MarineDelivery.PathLib.PosixPath MarineDelivery.Segments
open MarineDelivery.Common MarineDelivery.Domain MarineDelivery.Validation MarineDelivery.S3
open MarineDelivery.OrderedDict MarineDelivery.Traced MarineDelivery.DeliveryId
open MarineDelivery.Core MarineDelivery.Manifest

variable {did pid ds s t : String}

/-! ### Cutting a key -/

/-- **By position**: the first two pieces are `data` and the delivery id. -/
lemma getS3KeySuffix_newDataBucketPath (h : '/' ∉ did.toList) :
    getS3KeySuffix (newDataBucketPath did pid ds s) = pid ++ "/" ++ ds ++ "/" ++ s := by
  have hkey : (newDataBucketPath did pid ds s).toList =
      "data".toList ++ '/' :: (did.toList ++ '/' :: (pid ++ "/" ++ ds ++ "/" ++ s).toList) := by
    simp [newDataBucketPath, String.toList_append]
  rw [getS3KeySuffix, hkey, ← String.toList_inj, toList_intercalate_slash, ← List.map_drop,
    List.map_map]
  rw [show String.toList ∘ String.ofList = id from funext fun w => String.toList_ofList,
    List.map_id]
  exact join_drop_splitOn '/' (by decide) h _

/-- The parts of a key are the ids and the components of the suffix. -/
lemma parts_newDataBucketPath (hd : IsComponent did) (hp : IsComponent pid)
    (hs : IsComponent ds) :
    (ofString (newDataBucketPath did pid ds s)).parts =
      "data" :: did :: pid :: ds :: components s := by
  have hroot : (ofString (newDataBucketPath did pid ds s)).root = "" := by
    refine root_ofString_of_head ?_
    simp [newDataBucketPath, String.toList_append]
  have hkey : newDataBucketPath did pid ds s =
      "data" ++ "/" ++ did ++ "/" ++ pid ++ "/" ++ ds ++ "/" ++ s := by
    rw [← String.toList_inj]
    simp [newDataBucketPath, String.toList_append]
  rw [parts, if_pos hroot, tail_ofString, hkey, components_append_slash, components_append_slash,
    components_append_slash, components_append_slash, components_of_isComponent hd,
    components_of_isComponent hp, components_of_isComponent hs,
    components_of_isComponent (by decide)]
  rfl

lemma components_str_ofParts {cs : List String} (h : ∀ c ∈ cs, IsComponent c) :
    components (ofParts cs).str = cs := by
  rw [← tail_ofString, ofString_str, (ofParts_components h).2]

/-- **By the dataset id**: what is left is the suffix, written as its path is, if no earlier
part of the key is the dataset id, and something longer otherwise. -/
lemma localPathToKeySuffix_newDataBucketPath (hd : IsComponent did) (hp : IsComponent pid)
    (hs : IsComponent ds)
    (h : localPathToKeySuffix (newDataBucketPath did pid ds s) (some ds) = .ok t) :
    if ds ∈ ["data", did, pid] then components t ≠ components s
    else t = (ofParts (components s)).str := by
  obtain ⟨rest, hrest, rfl⟩ := localPathToKeySuffix_some_ok_iff.mp h
  rw [parts_newDataBucketPath hd hp hs] at hrest
  split_ifs with hm
  · obtain ⟨u, hu, hnot⟩ := afterFirst_eq_some hrest
    have hrc : ∀ c ∈ rest, IsComponent c := isComponent_of_afterFirst
      (p := ofString (newDataBucketPath did pid ds s))
      (by rw [parts_newDataBucketPath hd hp hs]; exact hrest)
    rw [components_str_ofParts hrc]
    -- the first three parts hold the dataset id, so fewer than three come before it
    have hlen : u.length < 3 := by
      by_contra hge
      have htake : ["data", did, pid] = u.take 3 := by
        have := congrArg (List.take 3) hu
        rwa [List.take_append_of_le_length (by omega)] at this
      exact hnot (List.take_subset 3 u (htake ▸ hm))
    have hcount := congrArg List.length hu
    intro e
    simp only [List.length_cons, List.length_append, e] at hcount
    omega
  · have hfirst := afterFirst_append hm (components s)
    simp only [List.cons_append, List.nil_append] at hfirst
    rw [hfirst] at hrest
    rw [Option.some.inj hrest]

/-! ### The places of a file -/

variable {fs : FileSystem} {anchor : Option String} {files : List String} {f g : String}

/-- The last string of the request that spells a path. -/
def lastSpelling (files : List String) (p : PosixPath) : Option String :=
  files.reverse.find? fun g => ofString g = p

lemma ingestionKeys_get?_last (p : PosixPath) :
    (ingestionKeys did pid ds anchor files).get? p =
      (lastSpelling files p).map (ingestionKey did pid ds anchor) := by
  rw [ingestionKeys, Dict.get?_ofList, ← List.map_reverse, List.find?_map, Option.map_map,
    lastSpelling]
  rfl

lemma localPathToKeySuffix_eq_keySuffixOf (h : invalidUploadFile fs ds pid anchor f = none) :
    localPathToKeySuffix f anchor = .ok (keySuffixOf anchor f) := by
  obtain ⟨s, hs⟩ := localPathToKeySuffix_of_valid h
  rw [hs, keySuffixOf_of_ok hs]

lemma str_ofParts_keySuffixOf (hg : invalidUploadFile fs ds pid anchor g = none)
    (hp : ofString g = ofString f) (hn : (ofString f).str = f) :
    (ofParts (components (keySuffixOf anchor g))).str = keySuffixOf anchor f := by
  cases anchor with
  | none =>
      have habs : (ofString g).isAbsolute = false := (invalidUploadFile_eq_none_iff.mp hg).2.2.2.2.1
      have hroot : (ofString g).root = "" := by simpa [isAbsolute] using habs
      obtain ⟨hr, ht⟩ := ofParts_components fun c (hc : c ∈ components g) => components_mem hc
      have he : ofParts (components g) = ofString f := by
        rw [← hp]
        exact PosixPath.ext (hr.trans hroot.symm) (by rw [ht, tail_ofString])
      rw [keySuffixOf_none, keySuffixOf_none, he, hn]
  | some a =>
      obtain ⟨s, hs⟩ := localPathToKeySuffix_of_valid hg
      obtain ⟨rest, hrest, rfl⟩ := localPathToKeySuffix_some_ok_iff.mp hs
      have hf := localPathToKeySuffix_some_congr (a := a) hp
      rw [keySuffixOf_of_ok hs, keySuffixOf_of_ok (hf ▸ hs),
        components_str_ofParts (isComponent_of_afterFirst hrest)]

/-- The three places of a file, `suffix` being the key suffix of its entry: the key of its put,
what the response shows, and the suffix of its local path. -/
def PlacesAgree (did pid ds : String) (anchor : Option String) (file suffix : String)
    (put : S3File) (shown : List (PosixPath × String)) : Prop :=
  put.ingestionSystemS3Path = "data/" ++ did ++ "/" ++ pid ++ "/" ++ ds ++ "/" ++ suffix ∧
  (put.localPath, pid ++ "/" ++ ds ++ "/" ++ suffix) ∈ shown ∧
  localPathToKeySuffix file anchor = .ok suffix

/-- The dataset id comes first at its own place in the key, and without an anchor no other
spelling of the path is requested later. -/
def CleanPlace (did pid ds : String) (anchor : Option String) (files : List String)
    (file : String) : Prop :=
  ds ∉ ["data", did, pid] ∧ (anchor = none → lastSpelling files (ofString file) = some file)

lemma places_iff (hd : IsComponent did) (hpid : IsComponent pid) (hds : IsComponent ds)
    (hf : invalidUploadFile fs ds pid anchor f = none)
    (hg : invalidUploadFile fs ds pid anchor g = none) (hp : ofString g = ofString f)
    (hn : (ofString f).str = f)
    (ht : localPathToKeySuffix (ingestionKey did pid ds anchor g) (some ds) = .ok t) :
    (ingestionKey did pid ds anchor g = newDataBucketPath did pid ds t ∧
        localPathToKeySuffix f anchor = .ok t) ↔
      ds ∉ ["data", did, pid] ∧ (anchor = none → g = f) := by
  have hcut := localPathToKeySuffix_newDataBucketPath hd hpid hds ht
  rw [ingestionKey, newDataBucketPath_inj, localPathToKeySuffix_eq_keySuffixOf hf,
    Except.ok.injEq]
  split_ifs at hcut with hm
  · constructor
    · rintro ⟨he, -⟩
      exact absurd (congrArg components he.symm) hcut
    · rintro ⟨hc, -⟩
      exact absurd hm hc
  · rw [str_ofParts_keySuffixOf hg hp hn] at hcut
    subst hcut
    cases anchor with
    | none => simp [keySuffixOf_none, hm]
    | some a =>
        have he : keySuffixOf (some a) g = keySuffixOf (some a) f := by
          rw [keySuffixOf, keySuffixOf, localPathToKeySuffix_some_congr hp]
        simp [he, hm]

lemma ownS3File_ingestionKeys {dryRun : Bool} {run : PosixPath → FileRun} {put : S3File}
    (h : ownS3File dryRun run (ingestionKeys did pid ds anchor files) f = some put) :
    (ofString f).str = f ∧ ∃ g ∈ files, ofString g = ofString f ∧
      lastSpelling files (ofString f) = some g ∧
      (ofString f, ingestionKey did pid ds anchor g) ∈
        (ingestionKeys did pid ds anchor files).items ∧
      successOf dryRun run (ofString f, ingestionKey did pid ds anchor g) = some put := by
  obtain ⟨hn, key, hitem, hs⟩ := ownS3File_eq_some h
  have hkey := Dict.mem_items_iff.mp hitem
  rw [ingestionKeys_get?_last] at hkey
  obtain ⟨g, hg, rfl⟩ := Option.map_eq_some_iff.mp hkey
  exact ⟨hn, g, List.mem_reverse.mp (List.mem_of_find?_eq_some hg),
    by simpa using List.find?_some hg, hg, hitem, hs⟩

lemma mem_filesUploaded {pe : String} {dryRun : Bool} {res : PutFilesResult} {put : S3File}
    (h : put ∈ res.successfulFiles) :
    (put.localPath, getS3KeySuffix put.ingestionSystemS3Path) ∈
      (ResponseUpload.create did pid ds pe dryRun res).filesUploaded :=
  (List.perm_insertionSort fileLe _).mem_iff.mpr (List.mem_map.mpr ⟨put, h, rfl⟩)

/-- **The three places of a file agree exactly when it is clean**: for ids that are path
components and an operation the validation accepted, every entry of the manifest belongs to a
requested file and a put of its path, and their places agree if and only if the dataset id is
neither `data`, the delivery id nor the product id, and, without an anchor, the file is the
last spelling of its path. -/
theorem placesAgree_iff {now : LocalTime} {r : RandomNumber} {uploads : Uploads}
    {n : ℕ} {client : S3Client} {args : CallArgs} {op : ToUploadOperation}
    {res : PutFilesResult} {operation : UploadOperation}
    (hpid : IsComponent args.productId) (hds : IsComponent args.datasetId)
    (hop : createAndValidateToUploadOperation fs files args.datasetId args.productId anchor =
      .ok op)
    (hres : (putFilesToIngestionSystem uploads n client
      (createDeliveryId now r args.productId) args anchor op).result = .ok (res, operation))
    (pe : String) :
    ∃ listed : List String, listed.Sublist files ∧
      List.Forall₂ (fun f u => ∃ put ∈ res.successfulFiles, put.localPath = ofString f ∧
        (PlacesAgree (createDeliveryId now r args.productId) args.productId args.datasetId
            anchor f u.keySuffix.1 put
            (ResponseUpload.create (createDeliveryId now r args.productId) args.productId
              args.datasetId pe args.dryRun res).filesUploaded ↔
          CleanPlace (createDeliveryId now r args.productId) args.productId args.datasetId
            anchor files f))
        listed operation.files := by
  obtain ⟨hvalid, -, -, rfl⟩ := createAndValidateToUploadOperation_ok_iff.mp hop
  obtain ⟨-, -, -, -, hput, -, hus⟩ :=
    (putFilesToIngestionSystem_ok_iff (map_localPath_fileToUpload fs files)).mp hres
  have hd : IsComponent (createDeliveryId now r args.productId) :=
    isComponent_createDeliveryId hpid
  have hentries := (List.forall₂_and_left _ _).mpr
    ⟨fun f hf => (List.mem_filter.mp hf).1, entries_of_found _ hus⟩
  refine ⟨_, List.filter_sublist, hentries.imp ?_⟩
  rintro f u ⟨hf, put, hown, hu⟩
  obtain ⟨hn, g, hg, hp, hlast, hitem, hs⟩ := ownS3File_ingestionKeys hown
  have hmem : put ∈ res.successfulFiles := by
    rw [hput]
    exact List.mem_filterMap.mpr ⟨_, (uploads.completed_perm n _).mem_iff.mpr hitem, hs⟩
  obtain ⟨eTag, -, rfl⟩ := successOf_eq_some hs
  refine ⟨_, hmem, rfl, ?_⟩
  have hiff := places_iff hd hpid hds (hvalid f hf) (hvalid g hg) hp hn
    (manifestFile_ok_iff.mp hu).1
  rw [CleanPlace, hlast, Option.some.injEq, ← hiff]
  refine ⟨fun ⟨hkey, _, hsuffix⟩ => ⟨hkey, hsuffix⟩, fun ⟨hkey, hsuffix⟩ => ⟨hkey, ?_, hsuffix⟩⟩
  rw [← getS3KeySuffix_newDataBucketPath hd.2, ← hkey]
  exact mem_filesUploaded hmem

def anchoredPut : S3File :=
  ⟨ofString "x/anc/a.nc", "data/20250102T030405-prod-1234/prod/dset/a.nc", "t1", "10:00", "10:01"⟩

theorem placesAgree_iff_anchored :
    ∃ listed : List String, listed.Sublist ["x/anc/a.nc"] ∧
      List.Forall₂ (fun f u => ∃ put ∈ [anchoredPut], put.localPath = ofString f ∧
        (PlacesAgree (createDeliveryId exampleNow exampleNumber exampleArgs.productId)
            exampleArgs.productId exampleArgs.datasetId (some "anc") f u.keySuffix.1 put
            (ResponseUpload.create
              (createDeliveryId exampleNow exampleNumber exampleArgs.productId)
              exampleArgs.productId exampleArgs.datasetId "entity" exampleArgs.dryRun
              ⟨[anchoredPut], []⟩).filesUploaded ↔
          CleanPlace (createDeliveryId exampleNow exampleNumber exampleArgs.productId)
            exampleArgs.productId exampleArgs.datasetId (some "anc") ["x/anc/a.nc"] f))
        listed [(⟨⟨"a.nc", by decide +kernel⟩, none, 0, "t1", some "10:00", some "10:01"⟩ :
          UploadFile)] := by
  have hop : createAndValidateToUploadOperation
      (exampleWorld [("x/anc/a.nc", 10)]).fileSystem ["x/anc/a.nc"] exampleArgs.datasetId
      exampleArgs.productId (some "anc") =
      .ok ⟨[fileToUpload (exampleWorld [("x/anc/a.nc", 10)]).fileSystem "x/anc/a.nc"],
        some "anc"⟩ := by decide +kernel
  have hres : (putFilesToIngestionSystem (exampleUploads (.success (some "t1"))) 0 exampleClient
      (createDeliveryId exampleNow exampleNumber exampleArgs.productId) exampleArgs (some "anc")
      ⟨[fileToUpload (exampleWorld [("x/anc/a.nc", 10)]).fileSystem "x/anc/a.nc"],
        some "anc"⟩).result = .ok (⟨[anchoredPut], []⟩, ⟨.upload,
          [⟨⟨"a.nc", by decide +kernel⟩, none, 0, "t1", some "10:00", some "10:01"⟩]⟩) := by
    decide +kernel
  exact placesAgree_iff (by decide) (by decide) hop hres "entity"

def repeatedIdPut : S3File :=
  ⟨ofString "a.nc", "data/20250102T030405-prod-1234/prod/prod/a.nc", "t1", "10:00", "10:01"⟩

/-- A dataset id that repeats the product id is found at the product id: the manifest
publishes `prod/a.nc` for the file put to `.../prod/prod/a.nc`. -/
theorem not_placesAgree_repeated_id :
    validateDeliveryIds "entity" "prod" "prod"
      ⟨"entity", "ingestion", [⟨"prod", ["prod"]⟩]⟩ = .ok () ∧
    createAndValidateToUploadOperation (exampleWorld [("a.nc", 10)]).fileSystem ["a.nc"] "prod"
      "prod" none =
      .ok ⟨[fileToUpload (exampleWorld [("a.nc", 10)]).fileSystem "a.nc"], none⟩ ∧
    ∃ u : UploadFile, u.keySuffix.1 = "prod/a.nc" ∧
      (putFilesToIngestionSystem (exampleUploads (.success (some "t1"))) 0 exampleClient
        (createDeliveryId exampleNow exampleNumber "prod")
        { exampleArgs with datasetId := "prod" } none
        ⟨[fileToUpload (exampleWorld [("a.nc", 10)]).fileSystem "a.nc"], none⟩).result =
        .ok (⟨[repeatedIdPut], []⟩, ⟨.upload, [u]⟩) ∧
      ¬ PlacesAgree (createDeliveryId exampleNow exampleNumber "prod") "prod" "prod" none "a.nc"
        u.keySuffix.1 repeatedIdPut
        (ResponseUpload.create (createDeliveryId exampleNow exampleNumber "prod") "prod" "prod"
          "entity" false ⟨[repeatedIdPut], []⟩).filesUploaded := by
  refine ⟨by decide, by decide +kernel,
    ⟨⟨"prod/a.nc", by decide +kernel⟩, none, 0, "t1", some "10:00", some "10:01"⟩, rfl,
    by decide +kernel, ?_⟩
  rintro ⟨-, -, h⟩
  exact absurd (Except.ok.inj h) (by decide)

end MarineDelivery.Places
