import Mathlib.Algebra.Order.BigOperators.Group.List
import MarineDelivery.Calls
import MarineDelivery.Conservation
import MarineDelivery.Limits
import MarineDelivery.Places

/-!
Delivering again what has failed.

The response of a call names the files that failed. They are given to another call, and what
fails there to the next one, as often as it takes, and a call that raises is made again. The
files of all deliveries and the ones that are left are then always those that were requested,
and whoever has accepted the request accepts what is left of it. The manifests name every file
by its own key suffix where the dataset id is no earlier part of the keys.
-/

namespace MarineDelivery.Rounds

open MarineDelivery.PathLib MarineDelivery.PathLib.PosixPath MarineDelivery.Errors
open MarineDelivery.Common MarineDelivery.Domain MarineDelivery.Validation MarineDelivery.S3
open MarineDelivery.OrderedDict MarineDelivery.Traced MarineDelivery.Core MarineDelivery.Calls
open MarineDelivery.Manifest MarineDelivery.Conservation MarineDelivery.Limits
open MarineDelivery.Places

structure Round where
  world : World
  uploads : Uploads

/-- The deliveries that were made, and the files that are left. -/
structure Shipment where
  deliveries : List Delivery
  left : List String

variable (args : CallArgs) (anchor : Option String)

def Shipment.next (s : Shipment) (round : Round) : Shipment :=
  match (upload round.world round.uploads args s.left anchor).result with
  | .ok (response, delivery) =>
    ⟨s.deliveries ++ [delivery], response.filesFailed.map (·.localPath.str)⟩
  | .error _ => s

def afterRounds (files : List String) (rounds : List Round) : Shipment :=
  rounds.foldl (Shipment.next args anchor) ⟨[], files⟩

/-- The manifest lists these files, in this order, each under its own key suffix. -/
def Lists (files : List String) (d : Delivery) : Prop :=
  ∃ operation, d.operations = [.upload operation] ∧
    List.Forall₂ (fun f u => localPathToKeySuffix f anchor = .ok u.keySuffix.1) files
      operation.files

/-- Every file is listed once in one of the deliveries, or left. -/
def Accounted (files : List String) (s : Shipment) : Prop :=
  ∃ sent : List (List String), List.Forall₂ (Lists anchor) sent s.deliveries ∧
    (sent.flatten ++ s.left).Perm files

/-- The ids are pieces of a path, and the dataset id is none of the parts before it in a key of
this call. -/
structure CleanIds (args : CallArgs) (world : World) : Prop where
  product : IsComponent args.productId
  dataset : IsComponent args.datasetId
  before : args.datasetId ∉ ["data", newDeliveryId world args, args.productId]

variable {args anchor} {files : List String}

/-! ### One call -/

/-- What a call that returns has prepared, put and listed. -/
lemma upload_ok {world : World} {uploads : Uploads} {response : ResponseUpload} {d : Delivery}
    (h : (upload world uploads args files anchor).result = .ok (response, d)) :
    ∃ session op res operation, session.deliveryId = newDeliveryId world args ∧
      createAndValidateToUploadOperation world.fileSystem files args.datasetId args.productId
        anchor = .ok op ∧
      (putFilesToIngestionSystem uploads 0 session.s3Client session.deliveryId args op.anchor
        op).result = .ok (res, operation) ∧
      response.filesFailed = res.erroredFiles ∧ d = deliveryOf args session [.upload operation] := by
  have hcall : (upload world uploads args files anchor >>= fun y =>
      pure ([OperationResponse.upload y.1], y.2)).result = .ok ([.upload response], d) :=
    Comp.bind_result_eq_ok.mpr ⟨_, h, rfl⟩
  rw [upload_eq] at hcall
  obtain ⟨⟨session, op⟩, hprep, hrun⟩ := Comp.bind_result_eq_ok.mp hcall
  obtain ⟨hid, hop⟩ := prepareUpload_ok _ _ hprep
  obtain ⟨processed, hloop, hresponses, rfl, -⟩ := runPending_ok _ _ _ hrun
  obtain ⟨x, rest, rfl, hx, hrest⟩ := Comp.eachFrom_cons_ok.mp hloop
  cases hrest
  obtain ⟨⟨res, operation⟩, hput, he⟩ := Comp.bind_result_eq_ok.mp hx
  cases he
  cases hresponses
  exact ⟨session, op, res, operation, hid, hop, hput, rfl, rfl⟩

section Written

variable {did pid ds : String} {run : PosixPath → FileRun}

lemma nodup_map_ofString (hwritten : ∀ f ∈ files, (ofString f).str = f) (hnodup : files.Nodup) :
    (files.map ofString).Nodup := by
  refine List.Nodup.map_on (fun f hf g hg he => ?_) hnodup
  rw [← hwritten f hf, he, hwritten g hg]

/-- A file that is written as its path is finds its own put. -/
lemma ownS3File_of_written (hwritten : ∀ f ∈ files, (ofString f).str = f)
    (hpaths : (files.map ofString).Nodup) {f : String} (hf : f ∈ files) :
    ownS3File false run (ingestionKeys did pid ds anchor files) f =
      successOf false run (ofString f, ingestionKey did pid ds anchor f) := by
  have hkey : (ingestionKeys did pid ds anchor files).get? (ofString f) =
      some (ingestionKey did pid ds anchor f) := by
    refine ingestionKeys_get? hf fun g hg he => ?_
    rw [List.inj_on_of_nodup_map hpaths hg hf he]
  rw [ownS3File, if_pos (hwritten f hf), hkey, Option.bind_some]

lemma lists_succeeded {world : World} {operation : UploadOperation} {d : Delivery}
    (hwritten : ∀ f ∈ files, (ofString f).str = f) (hpaths : (files.map ofString).Nodup)
    (hvalid : ∀ f ∈ files, invalidUploadFile world.fileSystem args.datasetId args.productId anchor
      f = none)
    (hids : CleanIds args world) (hid : d.deliveryId = newDeliveryId world args)
    (hd : d.operations = [.upload operation])
    (hus : List.Forall₂ (fun x u => manifestFile args.datasetId x.1 x.2 = .ok u)
      (foundFiles false run (ingestionKeys d.deliveryId args.productId args.datasetId anchor files)
        ⟨files.map (fileToUpload world.fileSystem), anchor⟩) operation.files) :
    Lists anchor (files.filter (succeeded run)) d := by
  have hown := fun f hf => @ownS3File_of_written anchor files d.deliveryId args.productId
    args.datasetId run hwritten hpaths f hf
  have hentries := entries_of_found world.fileSystem hus
  have hsent : (files.filter fun f => (ownS3File false run (ingestionKeys d.deliveryId
      args.productId args.datasetId anchor files) f).isSome) = files.filter (succeeded run) :=
    List.filter_congr fun f hf => by rw [hown f hf, isSome_successOf]
  rw [hsent] at hentries
  refine ⟨operation, hd, hentries.imp ?_⟩
  rintro f u ⟨s, hs, hu⟩
  obtain ⟨hstr, key, hmem, hsome⟩ := ownS3File_eq_some hs
  rw [items_ingestionKeys hpaths] at hmem
  obtain ⟨g, hg, he⟩ := List.mem_map.mp hmem
  obtain ⟨hpath, rfl⟩ := Prod.mk.inj he
  obtain rfl : g = f := by rw [← hwritten g hg, hpath, hstr]
  obtain ⟨eTag, -, rfl⟩ := successOf_eq_some hsome
  have hcut := (manifestFile_ok_iff.mp hu).1
  rw [hid] at hcut
  exact ((places_iff (DeliveryId.isComponent_createDeliveryId hids.product) hids.product hids.dataset
    (hvalid g hg) (hvalid g hg) rfl hstr hcut).mpr ⟨hids.before, fun _ => rfl⟩).2

/-- The files that were not put are written in the response as they were requested. -/
lemma failed_perm {completed : List (PosixPath × String)}
    (hwritten : ∀ f ∈ files, (ofString f).str = f) (hpaths : (files.map ofString).Nodup)
    (hc : completed.Perm (ingestionKeys did pid ds anchor files).items)
    (hspeaks : ∀ f ∈ files, ∀ e, verdict false (run (ofString f)) = .error e → e.text ≠ "") :
    ((completed.filterMap (errorOf false run)).map (·.localPath.str)).Perm
      (files.filter fun f => !succeeded run f) := by
  have herrors := congrArg (List.map PosixPath.str)
    (map_localPath_errorOf (ingestionKey did pid ds anchor) hspeaks)
  rw [List.map_map, List.map_map] at herrors
  have hstr : (files.filter fun f => !succeeded run f).map (PosixPath.str ∘ ofString) =
      files.filter fun f => !succeeded run f :=
    (List.map_congr_left fun f hf => hwritten f (List.mem_of_mem_filter hf)).trans
      (List.map_id _)
  have hitems := hc.trans (List.Perm.of_eq (items_ingestionKeys hpaths))
  exact ((hitems.filterMap _).map _).trans (List.Perm.of_eq (herrors.trans hstr))

end Written

/-- **A call lists the files it does not leave.** -/
lemma exists_sent {world : World} {uploads : Uploads} {response : ResponseUpload} {d : Delivery}
    (hdry : args.dryRun = false) (hids : CleanIds args world)
    (hwritten : ∀ f ∈ files, (ofString f).str = f)
    (h : (upload world uploads args files anchor).result = .ok (response, d)) :
    ∃ sent, Lists anchor sent d ∧
      (sent ++ response.filesFailed.map (·.localPath.str)).Perm files := by
  obtain ⟨session, op, res, operation, hid, hop, hput, hfailed, rfl⟩ := upload_ok h
  obtain ⟨hvalid, hnodup, -, rfl⟩ := createAndValidateToUploadOperation_ok_iff.mp hop
  obtain ⟨-, -, hset, -, rfl, -, hus⟩ :=
    (putFilesToIngestionSystem_ok_iff (map_localPath_fileToUpload world.fileSystem files)).mp hput
  rw [hdry] at hset hus hfailed
  have hpaths := nodup_map_ofString hwritten hnodup
  have hspeaks : ∀ f ∈ files, ∀ e, verdict false (uploads.run 0 (ofString f)) = .error e →
      e.text ≠ "" := by
    intro f hf e he
    obtain ⟨key, hkey⟩ := Dict.mem_keys_iff.mp
      (mem_keys_ingestionKeys.mpr (List.mem_map_of_mem hf))
    have hsettles := hset (ofString f, key) (Dict.mem_items_iff.mpr hkey)
    rw [he] at hsettles
    exact hsettles.2
  refine ⟨files.filter (succeeded (uploads.run 0)),
    lists_succeeded hwritten hpaths hvalid hids hid rfl hus, ?_⟩
  have hcompleted := uploads.completed_perm 0
    (ingestionKeys session.deliveryId args.productId args.datasetId anchor files).items
  have hleft := failed_perm hwritten hpaths hcompleted hspeaks
  rw [hfailed]
  exact (hleft.append_left _).trans (List.filter_append_perm _ files)

/-! ### The rounds -/

/-- **What one call preserves.** -/
lemma Accounted.next (hdry : args.dryRun = false) (hwritten : ∀ f ∈ files, (ofString f).str = f)
    {s : Shipment} (h : Accounted anchor files s) {round : Round}
    (hids : CleanIds args round.world) :
    Accounted anchor files (s.next args anchor round) := by
  unfold Shipment.next
  cases hcall : (upload round.world round.uploads args s.left anchor).result with
  | error e => exact h
  | ok x =>
      obtain ⟨sent, hlists, hperm⟩ := h
      have hleft : ∀ f ∈ s.left, (ofString f).str = f := fun f hf =>
        hwritten f (hperm.subset (List.mem_append_right _ hf))
      obtain ⟨more, hmore, hsplit⟩ := exists_sent hdry hids hleft hcall
      refine ⟨sent ++ [more], List.rel_append hlists (.cons hmore .nil), ?_⟩
      rw [List.flatten_append, List.flatten_singleton, List.append_assoc]
      exact (hsplit.append_left _).trans hperm

lemma afterRounds_concat (rounds : List Round) (round : Round) :
    afterRounds args anchor files (rounds ++ [round]) =
      (afterRounds args anchor files rounds).next args anchor round := by
  rw [afterRounds, List.foldl_append]
  rfl

lemma accounted_afterRounds (hdry : args.dryRun = false)
    (hwritten : ∀ f ∈ files, (ofString f).str = f) {rounds : List Round}
    (hids : ∀ round ∈ rounds, CleanIds args round.world) :
    Accounted anchor files (afterRounds args anchor files rounds) := by
  induction rounds using List.reverseRecOn with
  | nil => exact ⟨[], .nil, List.Perm.refl _⟩
  | append_singleton rounds round ih =>
      rw [afterRounds_concat]
      exact (ih fun r hr => hids r (List.mem_append_left _ hr)).next hdry hwritten
        (hids round (by simp))

/-! ### What is accepted -/

lemma within_of_subperm {limits : APILimits} {sizes listed : List ℚ} (h : Within limits sizes)
    (hsub : listed.Subperm sizes) (hpos : ∀ size ∈ sizes, 0 ≤ size) : Within limits listed := by
  obtain ⟨l, hperm, hsublist⟩ := hsub
  refine ⟨?_, ?_, fun size hsize => h.each size (hsublist.subset (hperm.mem_iff.mpr hsize))⟩
  · have hlength : (listed.length : ℤ) ≤ sizes.length := by
      rw [← hperm.length_eq]
      exact_mod_cast hsublist.length_le
    exact hlength.trans h.number
  · calc listed.sum = l.sum := hperm.sum_eq.symm
      _ ≤ sizes.sum := hsublist.sum_le_sum hpos
      _ ≤ limits.maxDeliverySizeGb * 1024 := h.total

lemma prepareUpload_of_subperm {world : World} {left : List String}
    {x : Session × ToUploadOperation} (h : prepareUpload world args files anchor = .ok x)
    (hsub : left.Subperm files) : ∃ y, prepareUpload world args left anchor = .ok y := by
  unfold prepareUpload at h ⊢
  simp only [bind_eq_ok] at h ⊢
  obtain ⟨⟨config, pec⟩, hidentify, op, hop, ⟨⟩, hsizes, client, hopen, -⟩ := h
  obtain ⟨hvalid, hnodup, hstat, rfl⟩ := createAndValidateToUploadOperation_ok_iff.mp hop
  have hnodup' : left.Nodup := by
    obtain ⟨l, hperm, hsublist⟩ := hsub
    exact hperm.nodup_iff.mp (hnodup.sublist hsublist)
  have hop' : createAndValidateToUploadOperation world.fileSystem left args.datasetId
      args.productId anchor = .ok ⟨left.map (fileToUpload world.fileSystem), anchor⟩ :=
    createAndValidateToUploadOperation_ok_iff.mpr ⟨fun f hf => hvalid f (hsub.subset hf),
      hnodup', fun f hf => hstat f (hsub.subset hf), rfl⟩
  have hwithin := validateDeliverySizes_ok_iff.mp hsizes
  have hsizes' : validateDeliverySizes config.apiLimits
      [⟨left.map (fileToUpload world.fileSystem), anchor⟩] = .ok () := by
    refine validateDeliverySizes_ok_iff.mpr (within_of_subperm hwithin ?_ ?_)
    · simp only [allFiles, List.flatMap_singleton]
      obtain ⟨l, hperm, hsublist⟩ := hsub
      exact ⟨_, (hperm.map _).map _, (hsublist.map _).map _⟩
    · intro size hsize
      simp only [allFiles, List.flatMap_singleton, List.map_map] at hsize
      obtain ⟨f, -, rfl⟩ := List.mem_map.mp hsize
      exact div_nonneg (Nat.cast_nonneg _) (by norm_num)
  exact ⟨_, _, hidentify, _, hop', _, hsizes', _, hopen, rfl⟩

/-- **Nothing is lost and nothing is delivered twice**, however often a call is made again for
the files that failed: every file that was requested is listed once in one of the deliveries,
under its own key suffix, or is left; and what is left is accepted by all who have accepted the
request. -/
theorem rounds_account (hdry : args.dryRun = false)
    (hwritten : ∀ f ∈ files, (ofString f).str = f) {rounds : List Round}
    (hids : ∀ round ∈ rounds, CleanIds args round.world) :
    Accounted anchor files (afterRounds args anchor files rounds) ∧
      ∀ world x, prepareUpload world args files anchor = .ok x →
        ∃ y, prepareUpload world args (afterRounds args anchor files rounds).left anchor =
          .ok y := by
  have haccounted := @accounted_afterRounds args anchor files hdry hwritten rounds hids
  refine ⟨haccounted, fun world x hprep => prepareUpload_of_subperm hprep ?_⟩
  obtain ⟨sent, -, hperm⟩ := haccounted
  exact (List.sublist_append_right _ _).subperm.trans hperm.subperm

def exampleRefusal (path : PosixPath) : FileRun where
  uploadStartTime := "10:00"
  uploadEndTime := "10:01"
  attempts _ := if path.str = "a.nc" then .exception "refused" else .success (some "t1")

def exampleRounds : List Round :=
  let world := exampleWorld [("a.nc", 10), ("b.nc", 20)]
  let uploads := exampleUploads (.success (some "t1"))
  [⟨world, { uploads with run := fun _ => exampleRefusal }⟩, ⟨world, uploads⟩]

theorem rounds_account_twice :
    (afterRounds exampleArgs none ["a.nc", "b.nc"] (exampleRounds.take 1)).left = ["a.nc"] ∧
      (afterRounds exampleArgs none ["a.nc", "b.nc"] exampleRounds).left = [] ∧
      Accounted none ["a.nc", "b.nc"]
        (afterRounds exampleArgs none ["a.nc", "b.nc"] exampleRounds) := by
  refine ⟨by decide +kernel, by decide +kernel,
    (rounds_account rfl (by decide +kernel) fun round hround => ?_).1⟩
  refine ⟨by decide, by decide, ?_⟩
  rcases List.mem_pair.mp hround with rfl | rfl <;> decide +kernel

end MarineDelivery.Rounds
