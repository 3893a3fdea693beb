import MarineDelivery.DeliveryFile
import MarineDelivery.Listing
import MarineDelivery.Summaries

/-!
The command line.

A command is a call with its arguments read from options and files before, and its response
printed and its delivery written to a file after it. Whatever is raised is logged, and the
command exits with 1. `exit_status` says what can be told from the exit status.
-/

namespace MarineDelivery.CommandLine

open MarineDelivery.Errors MarineDelivery.Common MarineDelivery.Domain
open MarineDelivery.Validation MarineDelivery.Traced MarineDelivery.Models MarineDelivery.S3
open MarineDelivery.Core MarineDelivery.ManifestJson MarineDelivery.Listing

/-! ### What a command meets and leaves -/

/-- The files of the machine, and the libraries that parse and print them. -/
structure Files where
  yamlSafeLoad : String → Except PyError Value
  read : String → Except PyError String
  jsonLoads : String → Except String Value
  jsonDumps : Value → String
  openToWrite : String → Except PyError Unit
  /-- The text is put into the file that is open, and the file closed. -/
  write : String → String → Except PyError Unit
  /-- `str` of a `ValidationError`. -/
  validationText : String → String → String → String

/-- A line of the log at level `ERROR`: a message, or an exception. -/
inductive Logged
  | error (message : String)
  | exception (e : PyError)
  deriving DecidableEq

/-- A file that has been opened, with its text if all of it could be written. -/
structure SavedFile where
  name : String
  text : Option String
  deriving DecidableEq

/-- How a command ended: its exit status, what it did to the services, what it printed, the
errors the command line logged itself, and the file it left. What the core functions log on
their way, of a file that is skipped for instance, is not among the errors. -/
structure Outcome where
  exitCode : ℕ
  events : List Event
  echoed : List String
  ownErrors : List Logged
  saved : Option SavedFile
  deriving DecidableEq

/-- A command under its decorator. It can still raise when there is a file already. -/
abbrev Body := Comp Event PyError (Except PyError (List String) × Option SavedFile)

/-- The decorator of every command. The line that an exception is logged with is written apart. -/
def logExceptionAndExit (function : Body) : Outcome :=
  match function.result with
  | .ok (.ok echoed, saved) => ⟨0, function.events, echoed, [], saved⟩
  | .ok (.error e, saved) => ⟨1, function.events, [], [.exception e], saved⟩
  | .error e => ⟨1, function.events, [], [.exception e], none⟩

structure Options extends Interface.SubmitArgs where
  saveDeliveryJson : Bool := false

/-- `--pushing-entity-id`, or a variable of the environment that is not empty. -/
def onBehalfOf (env pushingEntityId : Option String) : Option String :=
  pushingEntityId.orElse fun _ => truthy env

def Options.callArgs (env : Option String) (o : Options) : CallArgs where
  productId := o.productId
  datasetId := o.datasetId
  raiseOnUploadError := o.raiseOnUploadError
  maxConcurrentUploads := o.maxConcurrentUploads
  chunkSizeBytes := Interface.megabytesToBytes o.chunkSizeMb
  chunkConcurrency := o.chunkConcurrency
  dryRun := o.dryRun
  onBehalfOf := onBehalfOf env o.pushingEntityId

/-! ### The commands -/

section

variable (files : Files)

/-- Whether the file could be written, and the file that is there now. -/
def savingDeliveryFile (delivery : Delivery) : Except PyError Unit × Option SavedFile :=
  let deliveryOutputFileName := delivery.deliveryId ++ ".json"
  match files.openToWrite deliveryOutputFileName with
  | .error e => (.error e, none)
  | .ok _ =>
    let text := files.jsonDumps (Delivery.modelDump delivery)
    match files.write deliveryOutputFileName text with
    | .error e => (.error e, some ⟨deliveryOutputFileName, none⟩)
    | .ok _ => (.ok (), some ⟨deliveryOutputFileName, some text⟩)

def report (saveDeliveryJson : Bool) (response : String) (delivery : Delivery) :
    Except PyError (List String) × Option SavedFile :=
  if saveDeliveryJson then
    let saving := savingDeliveryFile files delivery
    (saving.1.map fun _ => [response], saving.2)
  else (.ok [response], none)

/-- `sys.exit(1)`, when there is nothing to do. -/
def exitEmpty (message : String) : Outcome :=
  ⟨1, [], [files.jsonDumps (.dict [(.str "fatal_error", .str message)])], [.error message], none⟩

variable (world : World) (uploads : Uploads) (env : Option String)

def delivery (file : String) (o : Options) : Outcome :=
  logExceptionAndExit do
    let value ← Comp.lift (files.yamlSafeLoad file)
    let deliveryFile ← Comp.lift (DeliveryFile.modelValidate value)
    let (response, delivery) ← Core.delivery world uploads (o.callArgs env) deliveryFile
    return report files o.saveDeliveryJson (Summaries.ResponseDelivery.str response) delivery

def upload (source : List String) (o : Options) : Outcome :=
  if source = [] then exitEmpty files "No files added to upload."
  else logExceptionAndExit do
    let (response, delivery) ← Core.upload world uploads (o.callArgs env) source o.anchor
    return report files o.saveDeliveryJson (Summaries.ResponseUpload.str response) delivery

/-- The options for uploads do not exist here. -/
def delete (source : List String) (o : Options) : Outcome :=
  if source = [] then exitEmpty files "No files added to delete."
  else logExceptionAndExit do
    let (response, delivery) ← Core.delete world (o.callArgs env) source
    return report files o.saveDeliveryJson (Summaries.ResponseDelete.str response) delivery

variable (service : IngestionService) (coercions : Coercions)

def savedDeliveryId (deliveryJson : String) : Except PyError String := do
  let text ← files.read deliveryJson
  match files.jsonLoads text with
  | .error reason => .error (.other s!"Invalid delivery json: {reason}")
  | .ok value =>
    match Delivery.modelValidate coercions value with
    | .ok delivery => return delivery.deliveryId
    | .error (.validationError model field reason) =>
      let text := files.validationText model field reason
      .error (.other s!"Invalid delivery json: {text}")
    | .error e => .error e

def status (deliveryId deliveryJson pushingEntityId : Option String) (showAll : Bool) : Outcome :=
  logExceptionAndExit <| Comp.lift do
    if (truthy deliveryId).isNone ∧ deliveryJson.isNone then
      throw (.other "Specify either delivery_id or a path to a delivery json file.")
    let config ← world.getConfig
    let deliveryId ← match deliveryJson with
      | some path => some <$> savedDeliveryId files coercions path
      | none => pure deliveryId
    let deliveries ← getDeliveries world service coercions config (onBehalfOf env pushingEntityId)
      deliveryId none
    match deliveries with
    | [] => .error (.valueError s!"Delivery with id {idText deliveryId} not found.")
    | delivery :: _ => return (.ok [Overview.Delivery.getSummary delivery showAll], none)

def printListDeliveries (deliveries : List Delivery) : List String :=
  if deliveries = [] then ["No deliveries found."]
  else "\nDeliveries:\n" :: deliveries.map Overview.Delivery.str

def listDeliveries (timeframe : TimeframeLiteral) (pushingEntityId : Option String) : Outcome :=
  logExceptionAndExit <| Comp.lift do
    let config ← world.getConfig
    let deliveries ← getDeliveries world service coercions config (onBehalfOf env pushingEntityId)
      none (some timeframe)
    return (.ok (printListDeliveries deliveries), none)

end

/-! ### What the exit status says -/

/-- A command that delivers, with the argument it is given beside its options. -/
inductive Command
  | delivery (file : String)
  | upload (source : List String)
  | delete (source : List String)

def Command.invoke (files : Files) (world : World) (uploads : Uploads) (env : Option String)
    (o : Options) : Command → Outcome
  | .delivery file => CommandLine.delivery files world uploads env file o
  | .upload source => CommandLine.upload files world uploads env source o
  | .delete source => CommandLine.delete files world env source o

/-- The service takes the delivery, with the token that is fetched for it. -/
def Accepted (world : World) (d : Delivery) : Prop :=
  ∃ config token, world.getConfig = .ok config ∧
    world.fetchKeycloakTokenAtPost config = .ok token ∧ world.post token d = .ok ()

def fileOf (files : Files) (d : Delivery) : SavedFile :=
  ⟨d.deliveryId ++ ".json", some (files.jsonDumps (Delivery.modelDump d))⟩

/-- The file of the delivery can be opened, and then written. -/
structure CanSave (files : Files) (d : Delivery) : Prop where
  opens : files.openToWrite (d.deliveryId ++ ".json") = .ok ()
  writes : files.write (d.deliveryId ++ ".json") (files.jsonDumps (Delivery.modelDump d)) = .ok ()

/-- The file of the delivery can be opened, but not written. -/
structure BreaksOff (files : Files) (d : Delivery) : Prop where
  opens : files.openToWrite (d.deliveryId ++ ".json") = .ok ()
  fails : ∃ e, files.write (d.deliveryId ++ ".json") (files.jsonDumps (Delivery.modelDump d)) =
    .error e

/-- The delivery has been POSTed, the service has taken it, and the file that is asked for can
be written. -/
structure Delivered (files : Files) (world : World) (o : Options) (events : List Event)
    (d : Delivery) : Prop where
  posted : Event.posted d ∈ events
  accepted : Accepted world d
  canSave : o.saveDeliveryJson = true → CanSave files d

/-- **An exit status of 0 says that the delivery has been accepted**, and written to its file
if that was asked for; a status of 1 that this is not so, for a reason the command has logged.
Then there is no file, or one that has broken off although the delivery was accepted. -/
structure TellsTruth (files : Files) (world : World) (o : Options) (out : Outcome) : Prop where
  zero_iff : out.exitCode = 0 ↔ ∃ d, Delivered files world o out.events d
  status : out.exitCode = 0 ∧ out.ownErrors = [] ∨
    out.exitCode = 1 ∧ ∃ line, out.ownErrors = [line]
  saved : ∀ d, Delivered files world o out.events d →
    out.saved = if o.saveDeliveryJson then some (fileOf files d) else none
  left : out.exitCode ≠ 0 → out.saved = none ∨ ∃ d, Event.posted d ∈ out.events ∧
    Accepted world d ∧ o.saveDeliveryJson = true ∧ BreaksOff files d ∧
    out.saved = some ⟨d.deliveryId ++ ".json", none⟩

section

variable {files : Files} {world : World} {uploads : Uploads} {args : CallArgs}

lemma submit_ok_iff (hdry : args.dryRun = false) {config : GetConfigResponse}
    (hconfig : world.getConfig = .ok config) {d : Delivery} :
    (Calls.submit world args config d).result = .ok () ↔ Accepted world d := by
  rw [Calls.submit, hdry, if_neg Bool.false_ne_true]
  simp only [Comp.bind_result_eq_ok, Comp.lift_result, Comp.emit_result, Except.ok.injEq,
    exists_const, true_and, Accepted, hconfig]
  constructor
  · rintro ⟨token, htoken, hpost⟩
    exact ⟨config, token, rfl, htoken, hpost⟩
  · rintro ⟨_, token, rfl, htoken, hpost⟩
    exact ⟨token, htoken, hpost⟩

/-- The delivery of a call that returns is the one that the service has taken. -/
def Delivers {ρ : Type} (world : World) (call : Comp Event PyError (ρ × Delivery)) : Prop :=
  ∀ d, (∃ response, call.result = .ok (response, d)) ↔
    Event.posted d ∈ call.events ∧ Accepted world d

lemma delivers_runPending (hdry : args.dryRun = false) {session : Calls.Session}
    (hconfig : world.getConfig = .ok session.config) (pending : List PendingOperation) :
    Delivers world (Calls.runPending world uploads args session pending) := by
  intro d
  constructor
  · rintro ⟨responses, h⟩
    obtain ⟨processed, hloop, rfl, rfl, hs⟩ := Calls.runPending_ok _ _ _ h
    refine ⟨?_, (submit_ok_iff hdry hconfig).mp hs⟩
    exact Comp.mem_bind_right hloop (Comp.mem_bind_left (Calls.submit_posted _ _ hdry hs))
  · rintro ⟨hposted, haccepted⟩
    rcases Comp.mem_bind hposted with h | ⟨processed, hloop, h⟩
    · obtain ⟨i, p, -, h⟩ := Comp.mem_eachFrom_events h
      exact absurd h Manifest.posted_notMem_processOperation
    · rcases Comp.mem_bind h with h | ⟨_, -, h⟩
      · obtain rfl := Event.posted.inj (Calls.eq_posted_of_mem_submit _ _ h)
        have hs := (submit_ok_iff hdry hconfig).mpr haccepted
        exact ⟨_, Comp.bind_result_eq_ok.mpr ⟨processed, hloop,
          Comp.bind_result_eq_ok.mpr ⟨(), hs, rfl⟩⟩⟩
      · cases h

/-- What is done with the response of a call does not show. -/
lemma Delivers.of_map {ρ σ : Type} {call : Comp Event PyError (ρ × Delivery)} {f : ρ → σ}
    (h : Delivers world (call >>= fun x => pure (f x.1, x.2))) : Delivers world call := by
  intro d
  rw [← Comp.bind_pure_events call fun x => (f x.1, x.2), ← h d, Comp.bind_pure_result]
  cases call.result <;> simp [Except.map, Prod.ext_iff, eq_comm]

/-- A preparation that fails does nothing, one that succeeds is followed by the run. -/
lemma delivers_lift {ρ α : Type} {x : Except PyError α}
    {f : α → Comp Event PyError (ρ × Delivery)} (h : ∀ a, x = .ok a → Delivers world (f a)) :
    Delivers world (Comp.lift x >>= f) := by
  cases x with
  | error e =>
      rw [Comp.lift_error_bind]
      exact fun d => ⟨fun ⟨_, hd⟩ => (by cases hd), fun ⟨hd, _⟩ => (by cases hd)⟩
  | ok a =>
      rw [Comp.lift_ok_bind]
      exact h a rfl

lemma delivers_delivery (hdry : args.dryRun = false) (operations : List RequestedOperation) :
    Delivers world (Core.delivery world uploads args operations) := by
  rw [Calls.delivery_eq]
  refine delivers_lift fun x hprep d => ?_
  obtain ⟨config, pec, hidentify, hconfig⟩ : ∃ config pec,
      identify world args = .ok (config, pec) ∧ x.1.config = config := by
    unfold Calls.prepareDelivery at hprep
    simp only [bind_eq_ok, pure_eq_ok] at hprep
    obtain ⟨⟨config, pec⟩, hidentify, _, -, _, -, _, -, rfl⟩ := hprep
    exact ⟨config, pec, hidentify, rfl⟩
  have hrun : Delivers world (Calls.runPending world uploads args x.1 x.2) :=
    delivers_runPending hdry (hconfig ▸ Calls.identify_config _ _ hidentify) x.2
  rw [Comp.bind_pure_events, ← hrun d, Comp.bind_pure_result]
  cases (Calls.runPending world uploads args x.1 x.2).result <;>
    simp [Except.map, Prod.ext_iff, eq_comm]

lemma delivers_upload (hdry : args.dryRun = false) (files : List String)
    (anchor : Option String) :
    Delivers world (Core.upload world uploads args files anchor) := by
  refine Delivers.of_map (f := fun r => [OperationResponse.upload r]) ?_
  rw [Calls.upload_eq]
  refine delivers_lift fun x hprep => delivers_runPending hdry ?_ _
  unfold Calls.prepareUpload at hprep
  simp only [bind_eq_ok, pure_eq_ok] at hprep
  obtain ⟨⟨config, pec⟩, hidentify, _, -, _, -, _, -, rfl⟩ := hprep
  exact Calls.identify_config _ _ hidentify

lemma delivers_delete (hdry : args.dryRun = false) (files : List String) :
    Delivers world (Core.delete world args files) := by
  rw [Calls.delete_eq]
  refine delivers_lift fun x hprep d => ?_
  obtain ⟨config, pe, op⟩ := x
  have hconfig : world.getConfig = .ok config := by
    unfold Calls.prepareDelete at hprep
    simp only [bind_eq_ok, pure_eq_ok] at hprep
    obtain ⟨⟨config', pec⟩, hidentify, _, -, he⟩ := hprep
    cases he
    exact Calls.identify_config _ _ hidentify
  dsimp only
  rw [Comp.bind_pure_events, Comp.bind_pure_result]
  constructor
  · rintro ⟨response, h⟩
    cases hs : (Calls.submit world args config (createDelivery pe args.productId args.datasetId
        [.delete op] (Calls.newDeliveryId world args))).result with
    | error e =>
        rw [hs] at h
        cases h
    | ok u =>
        rw [hs] at h
        cases h
        exact ⟨Calls.submit_posted _ _ hdry hs, (submit_ok_iff hdry hconfig).mp hs⟩
  · rintro ⟨hposted, haccepted⟩
    obtain rfl := Event.posted.inj (Calls.eq_posted_of_mem_submit _ _ hposted)
    rw [(submit_ok_iff hdry hconfig).mpr haccepted]
    exact ⟨_, rfl⟩

lemma logExceptionAndExit_events (function : Body) :
    (logExceptionAndExit function).events = function.events := by
  unfold logExceptionAndExit
  split <;> rfl

lemma savingDeliveryFile_cases (files : Files) (d : Delivery) :
    CanSave files d ∧ savingDeliveryFile files d = (.ok (), some (fileOf files d)) ∨
    ¬ CanSave files d ∧ ∃ e saved, savingDeliveryFile files d = (.error e, saved) ∧
      (saved = none ∨ BreaksOff files d ∧ saved = some ⟨d.deliveryId ++ ".json", none⟩) := by
  unfold savingDeliveryFile
  cases hopen : files.openToWrite (d.deliveryId ++ ".json") with
  | error e =>
      refine .inr ⟨fun h => ?_, e, none, by simp only [hopen], .inl rfl⟩
      rw [h.opens] at hopen
      cases hopen
  | ok u =>
      cases hwrite : files.write (d.deliveryId ++ ".json")
          (files.jsonDumps (Delivery.modelDump d)) with
      | error e =>
          refine .inr ⟨fun h => ?_, e, some ⟨d.deliveryId ++ ".json", none⟩,
            by simp only [hopen, hwrite], .inr ⟨⟨hopen, e, hwrite⟩, rfl⟩⟩
          rw [h.writes] at hwrite
          cases hwrite
      | ok v => exact .inl ⟨⟨hopen, hwrite⟩, by simp only [hopen, hwrite, fileOf]⟩

lemma report_cases (files : Files) (save : Bool) (response : String) (d : Delivery) :
    (save = true → CanSave files d) ∧ report files save response d =
        (.ok [response], if save then some (fileOf files d) else none) ∨
    save = true ∧ ¬ CanSave files d ∧ ∃ e saved, report files save response d =
      (.error e, saved) ∧ (saved = none ∨ BreaksOff files d ∧
        saved = some ⟨d.deliveryId ++ ".json", none⟩) := by
  unfold report
  cases save with
  | false => exact .inl ⟨fun h => absurd h Bool.false_ne_true, rfl⟩
  | true =>
      rcases savingDeliveryFile_cases files d with ⟨hcan, hs⟩ | ⟨hcannot, e, saved, hs, hleft⟩
      · exact .inl ⟨fun _ => hcan, by rw [if_pos rfl, if_pos rfl, hs]; rfl⟩
      · exact .inr ⟨rfl, hcannot, e, saved, by rw [if_pos rfl, hs]; rfl, hleft⟩

/-- The commands end as their calls do, but for the file. -/
lemma tellsTruth_report {ρ : Type} (files : Files) (o : Options) (str : ρ → String)
    {call : Comp Event PyError (ρ × Delivery)} (h : Delivers world call) :
    TellsTruth files world o (logExceptionAndExit (call >>= fun x =>
      pure (report files o.saveDeliveryJson (str x.1) x.2))) := by
  have hevents := Comp.bind_pure_events call fun x =>
    report files o.saveDeliveryJson (str x.1) x.2
  have hresult := Comp.bind_pure_result call fun x =>
    report files o.saveDeliveryJson (str x.1) x.2
  unfold logExceptionAndExit
  rw [hevents, hresult]
  cases hcall : call.result with
  | error e =>
      have hno : ∀ d, ¬ Delivered files world o call.events d := by
        intro d hd
        obtain ⟨response, hok⟩ := (h d).mpr ⟨hd.posted, hd.accepted⟩
        rw [hcall] at hok
        cases hok
      exact ⟨by simp [Except.map, hno], .inr ⟨rfl, _, rfl⟩, fun d hd => absurd hd (hno d),
        fun _ => .inl rfl⟩
  | ok x =>
      obtain ⟨response, d⟩ := x
      obtain ⟨hposted, haccepted⟩ := (h d).mp ⟨response, hcall⟩
      -- the delivery that is returned is the only one that can have been delivered
      have honly : ∀ d', Delivered files world o call.events d' → d' = d := by
        intro d' hd'
        obtain ⟨response', hok⟩ := (h d').mpr ⟨hd'.posted, hd'.accepted⟩
        rw [hcall] at hok
        cases hok
        rfl
      rcases report_cases files o.saveDeliveryJson (str response) d with
        ⟨hcan, hreport⟩ | ⟨hsave, hcannot, e, saved, hreport, hleft⟩
      · simp only [Except.map, hreport]
        refine ⟨⟨fun _ => ⟨d, hposted, haccepted, hcan⟩, fun _ => rfl⟩, .inl ⟨rfl, rfl⟩,
          fun d' hd' => ?_, fun hne => absurd rfl hne⟩
        rw [honly d' hd']
      · have hno : ∀ d', ¬ Delivered files world o call.events d' := by
          intro d' hd'
          have hcan := hd'.canSave hsave
          rw [honly d' hd'] at hcan
          exact hcannot hcan
        simp only [Except.map, hreport]
        refine ⟨by simp [hno], .inr ⟨rfl, _, rfl⟩, fun d' hd' => absurd hd' (hno d'),
          fun _ => hleft.imp id fun hbroken => ?_⟩
        exact ⟨d, hposted, haccepted, hsave, hbroken⟩

lemma tellsTruth_exitEmpty (o : Options) (message : String) :
    TellsTruth files world o (exitEmpty files message) where
  zero_iff := ⟨fun h => (by cases h), fun ⟨_, hd⟩ => (by cases hd.posted)⟩
  status := .inr ⟨rfl, _, rfl⟩
  saved := fun _ hd => by cases hd.posted
  left := fun _ => .inl rfl

lemma tellsTruth_invoke (files : Files) (world : World) (uploads : Uploads)
    (env : Option String) (command : Command) (o : Options) (hdry : o.dryRun = false) :
    TellsTruth files world o (command.invoke files world uploads env o) := by
  cases command with
  | delivery file =>
      have hcall : ∀ operations, Delivers world
          (Core.delivery world uploads (o.callArgs env) operations) :=
        delivers_delivery (show (o.callArgs env).dryRun = false from hdry)
      have hparsed := delivers_lift (x := files.yamlSafeLoad file) fun value _ =>
        delivers_lift (x := DeliveryFile.modelValidate value) fun operations _ => hcall operations
      have htruth := tellsTruth_report files o Summaries.ResponseDelivery.str hparsed
      simp only [bind_assoc] at htruth
      exact htruth
  | upload source =>
      rw [Command.invoke, upload]
      split_ifs
      · exact tellsTruth_exitEmpty o _
      · exact tellsTruth_report files o _ (delivers_upload hdry source o.anchor)
  | delete source =>
      rw [Command.invoke, delete]
      split_ifs
      · exact tellsTruth_exitEmpty o _
      · exact tellsTruth_report files o _ (delivers_delete hdry source)

end

def exampleText : String :=
  "\x7b\n  \"delivery_id\": \"20250102T030405-prod-1234\"," ++
  "\n  \"pushing_entity_id\": \"entity\"," ++
  "\n  \"product_id\": \"prod\",\n  \"dataset_id\": \"dset\"," ++
  "\n  \"operations\": [\n    \x7b\n      \"files\": [\n        \x7b" ++
  "\n          \"key_suffix\": \"b.nc\",\n          \"error_message\": null" ++
  "\n        \x7d\n      ],\n      \"operation\": \"delete\"\n    \x7d\n  ]," ++
  "\n  \"creation_timestamp\": null,\n  \"status\": \"pending\"," ++
  "\n  \"status_timestamp\": null,\n  \"error_message\": null\n\x7d"

/-- A machine without any files, on which that delivery can be saved. -/
def exampleFiles : Files where
  yamlSafeLoad file := .error (.osError s!"No such file or directory: '{file}'")
  read file := .error (.osError s!"No such file or directory: '{file}'")
  jsonLoads _ := .error "Expecting value: line 1 column 1 (char 0)"
  jsonDumps _ := exampleText
  openToWrite _ := .ok ()
  write _ _ := .ok ()
  validationText model field reason := s!"1 validation error for {model}\n{field}\n  {reason}"

def exampleOptions : Options where
  productId := "prod"
  datasetId := "dset"
  saveDeliveryJson := true

end MarineDelivery.CommandLine
