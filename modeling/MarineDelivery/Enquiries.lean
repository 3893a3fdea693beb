import MarineDelivery.CommandLine

/-!
Asking about deliveries from the command line.

`status` is about the stored delivery with the id that is given or read from a file, and the
file that a command has saved leads back to the delivery it has POSTed. `list-deliveries`
prints what the service sends, the greatest id first.
-/

namespace MarineDelivery.Enquiries

open MarineDelivery.Errors MarineDelivery.Common MarineDelivery.Domain
open MarineDelivery.Validation MarineDelivery.Traced MarineDelivery.Models MarineDelivery.S3
open MarineDelivery.Core MarineDelivery.ManifestJson MarineDelivery.Listing
open MarineDelivery.CommandLine hiding delivery upload delete

/-! ### What a command has delivered -/

section

variable {files : Files} {world : World} {uploads : Uploads} {args : CallArgs}

/-- The delivery of a call has the id of the call, and operations that tell their class. -/
def Identified {ρ : Type} (world : World) (args : CallArgs)
    (call : Comp Event PyError (ρ × Delivery)) : Prop :=
  ∀ response d, call.result = .ok (response, d) →
    d.deliveryId = Calls.newDeliveryId world args ∧ ∀ op ∈ d.operations, Tagged op

lemma tagged_of_processed {fs : FileSystem} {client : S3Client} {pe did : String} {i : ℕ}
    {op : RequestedOperation} {p : PendingOperation} {x : Operation × OperationResponse}
    (hv : validateOperation fs args op = .ok p)
    (h : (processOperation uploads client pe did args i p).result = .ok x) : Tagged x.1 := by
  cases op with
  | delete requested =>
      obtain ⟨operation, hop, he⟩ := bind_eq_ok.mp hv
      cases he
      cases h
      exact (Built.delete hop).tagged
  | upload requested =>
      obtain ⟨operation, hop, he⟩ := bind_eq_ok.mp hv
      cases he
      obtain ⟨⟨res, posted⟩, hput, he⟩ := Comp.bind_result_eq_ok.mp h
      cases he
      obtain ⟨-, -, -, -, -, ho, -⟩ := (Manifest.putFilesToIngestionSystem_ok_iff rfl).mp hput
      exact ho

lemma identified_runPending {session : Calls.Session} {operations : List RequestedOperation}
    {pending : List PendingOperation} (hid : session.deliveryId = Calls.newDeliveryId world args)
    (hv : List.Forall₂ (fun op p => validateOperation world.fileSystem args op = .ok p)
      operations pending) :
    Identified world args (Calls.runPending world uploads args session pending) := by
  intro responses d h
  obtain ⟨processed, hloop, -, rfl, -⟩ := Calls.runPending_ok _ _ _ h
  obtain ⟨hlength, hbody⟩ := Comp.eachFrom_result_ok.mp hloop
  refine ⟨hid, fun o ho => ?_⟩
  obtain ⟨x, hx, rfl⟩ := List.mem_map.mp ho
  obtain ⟨i, hi, rfl⟩ := List.mem_iff_getElem.mp hx
  have hp : pending[i]? = some pending[i] := by simp
  obtain ⟨op, -, hop⟩ := forall₂_right hv (List.mem_of_getElem? hp)
  exact tagged_of_processed hop (hbody i _ _ hp (by simp))

lemma identified_delivery (operations : List RequestedOperation) :
    Identified world args (Core.delivery world uploads args operations) := by
  intro response d h
  rw [Calls.delivery_eq] at h
  obtain ⟨⟨session, pending⟩, hprep, h⟩ := Comp.bind_result_eq_ok.mp h
  obtain ⟨⟨responses, d'⟩, hrun, he⟩ := Comp.bind_result_eq_ok.mp h
  cases he
  obtain ⟨hid, hv⟩ := Calls.prepareDelivery_ok _ _ hprep
  exact identified_runPending hid hv _ _ hrun

lemma identified_upload (source : List String) (anchor : Option String) :
    Identified world args (Core.upload world uploads args source anchor) := by
  intro response d h
  have hrun : (Core.upload world uploads args source anchor >>= fun y =>
      pure ([OperationResponse.upload y.1], y.2)).result = .ok ([.upload response], d) :=
    Comp.bind_result_eq_ok.mpr ⟨_, h, rfl⟩
  rw [Calls.upload_eq] at hrun
  obtain ⟨⟨session, op⟩, hprep, hrun⟩ := Comp.bind_result_eq_ok.mp hrun
  obtain ⟨hid, hop⟩ := Calls.prepareUpload_ok _ _ hprep
  have hv : validateOperation world.fileSystem args (.upload ⟨source, anchor⟩) =
      .ok (.upload op) := bind_eq_ok.mpr ⟨op, hop, rfl⟩
  exact identified_runPending hid (.cons hv .nil) _ _ hrun

lemma identified_delete (source : List String) :
    Identified world args (Core.delete world args source) := by
  intro response d h
  rw [Calls.delete_eq] at h
  obtain ⟨⟨config, pe, op⟩, hprep, h⟩ := Comp.bind_result_eq_ok.mp h
  obtain ⟨_, -, he⟩ := Comp.bind_result_eq_ok.mp h
  cases he
  refine ⟨rfl, fun o ho => ?_⟩
  obtain rfl := List.mem_singleton.mp ho
  rw [Comp.lift_result, Calls.prepareDelete] at hprep
  simp only [bind_eq_ok, pure_eq_ok] at hprep
  obtain ⟨_, -, _, hop, he⟩ := hprep
  cases he
  exact (Built.delete hop).tagged

lemma identified_of_posted {ρ : Type} {call : Comp Event PyError (ρ × Delivery)} {d : Delivery}
    (h : Delivers world call) (hid : Identified world args call)
    (hposted : Event.posted d ∈ call.events) (haccepted : Accepted world d) :
    d.deliveryId = Calls.newDeliveryId world args ∧ ∀ op ∈ d.operations, Tagged op := by
  obtain ⟨response, hcall⟩ := (h d).mpr ⟨hposted, haccepted⟩
  exact hid response d hcall

lemma identified_of_delivered {env : Option String} {o : Options} {command : Command}
    {d : Delivery} (hdry : o.dryRun = false)
    (h : Delivered files world o (command.invoke files world uploads env o).events d) :
    d.deliveryId = Calls.newDeliveryId world (o.callArgs env) ∧
      ∀ op ∈ d.operations, Tagged op := by
  obtain ⟨hposted, haccepted, -⟩ := h
  cases command with
  | delivery file =>
      rw [Command.invoke, CommandLine.delivery, logExceptionAndExit_events] at hposted
      rcases Comp.mem_bind hposted with h | ⟨value, -, hposted⟩
      · cases h
      rcases Comp.mem_bind hposted with h | ⟨operations, -, hposted⟩
      · cases h
      rw [Comp.bind_events_left fun _ => rfl] at hposted
      exact identified_of_posted (delivers_delivery hdry operations)
        (identified_delivery operations) hposted haccepted
  | upload source =>
      rw [Command.invoke, CommandLine.upload] at hposted
      split_ifs at hposted
      · cases hposted
      rw [logExceptionAndExit_events, Comp.bind_events_left fun _ => rfl] at hposted
      exact identified_of_posted (delivers_upload hdry source o.anchor)
        (identified_upload source o.anchor) hposted haccepted
  | delete source =>
      rw [Command.invoke, CommandLine.delete] at hposted
      split_ifs at hposted
      · cases hposted
      rw [logExceptionAndExit_events, Comp.bind_events_left fun _ => rfl] at hposted
      exact identified_of_posted (delivers_delete hdry source) (identified_delete source)
        hposted haccepted

/-! ### The status command -/

variable {service : IngestionService} {coercions : Coercions} {stored : List Delivery}
variable {config : GetConfigResponse} {e : Option String} {id : String}

lemma mem_selected (hid : id ≠ "") {x : Delivery} :
    x ∈ selected stored (truthy (some id)) ↔ x ∈ stored ∧ x.deliveryId = id := by
  rw [truthy_some hid, selected, List.mem_filter, decide_eq_true_iff]

lemma mem_getDeliveries (hid : id ≠ "") (hserves : Serves service stored)
    (hstored : ∀ x ∈ stored, Produced coercions x) {result : List Delivery}
    (h : getDeliveries world service coercions config e (some id) none = .ok result)
    {x : Delivery} : x ∈ result ↔ x ∈ stored ∧ x.deliveryId = id := by
  obtain ⟨sent, hperm, rfl⟩ := getDeliveries_of_serves hserves hstored h
  rw [(perm_sortById sent).mem_iff, hperm.mem_iff, mem_selected hid]

/-- The service can be asked about this delivery. -/
def Reachable (world : World) (service : IngestionService) (e : Option String) (id : String) :
    Prop :=
  ∃ config token reply, world.getConfig = .ok config ∧
    world.fetchKeycloakToken config = .ok token ∧
    service.getDelivery token { deliveryId := some id, onBehalfOf := truthy e } = .ok reply

lemma exists_getDeliveries (hid : id ≠ "") (hserves : Serves service stored)
    (hstored : ∀ x ∈ stored, Produced coercions x) (h : Reachable world service e id) :
    ∃ config result, world.getConfig = .ok config ∧
      getDeliveries world service coercions config e (some id) none = .ok result := by
  obtain ⟨config, token, reply, hconfig, htoken, hreply⟩ := h
  obtain ⟨sent, hperm, rfl⟩ := hserves token _ reply rfl hreply
  have hproduced : ∀ x ∈ sent, Produced coercions x := by
    intro x hx
    have hmem := hperm.mem_iff.mp hx
    exact hstored x (List.mem_filter.mp hmem).1
  refine ⟨config, sortById sent, hconfig, getDeliveries_of_reply htoken ?_ hproduced⟩
  rw [truthy_some hid]
  exact hreply

/-- A status is about the stored delivery with this id, and is given if there is one. -/
structure Answers (stored : List Delivery) (id : String) (showAll : Bool) (reachable : Prop)
    (out : Outcome) : Prop where
  sound : out.exitCode = 0 → ∃ x ∈ stored, x.deliveryId = id ∧
    out.echoed = [Overview.Delivery.getSummary x showAll]
  silent : out.exitCode ≠ 0 → out.echoed = []
  complete : reachable → (out.exitCode = 0 ↔ ∃ x ∈ stored, x.deliveryId = id)
  quiet : out.events = [] ∧ out.saved = none

variable {env deliveryId deliveryJson pushingEntityId : Option String} {showAll : Bool}

/-- What `status` does once it knows which id to ask about. -/
def statusOf (world : World) (service : IngestionService) (coercions : Coercions)
    (e : Option String) (id : String) (showAll : Bool) :
    Except PyError (Except PyError (List String) × Option SavedFile) := do
  let config ← world.getConfig
  let deliveries ← getDeliveries world service coercions config e (some id) none
  match deliveries with
  | [] => .error (.valueError s!"Delivery with id {idText (some id)} not found.")
  | delivery :: _ => return (.ok [Overview.Delivery.getSummary delivery showAll], none)

lemma statusOf_ok_iff {x : Except PyError (List String) × Option SavedFile} :
    statusOf world service coercions e id showAll = .ok x ↔
      ∃ config d rest, world.getConfig = .ok config ∧
        getDeliveries world service coercions config e (some id) none = .ok (d :: rest) ∧
        x = (.ok [Overview.Delivery.getSummary d showAll], none) := by
  unfold statusOf
  simp only [bind_eq_ok]
  constructor
  · rintro ⟨config, hconfig, deliveries, hget, h⟩
    cases deliveries with
    | nil => cases h
    | cons d rest => exact ⟨config, d, rest, hconfig, hget, (Except.ok.inj h).symm⟩
  · rintro ⟨config, d, rest, hconfig, hget, rfl⟩
    exact ⟨config, hconfig, d :: rest, hget, rfl⟩

lemma answers_statusOf (hid : id ≠ "") (hserves : Serves service stored)
    (hstored : ∀ x ∈ stored, Produced coercions x) :
    Answers stored id showAll (Reachable world service e id)
      (logExceptionAndExit (Comp.lift (statusOf world service coercions e id showAll))) := by
  have hquiet : (logExceptionAndExit
      (Comp.lift (statusOf world service coercions e id showAll))).events = [] :=
    logExceptionAndExit_events _
  have hfirst : ∀ x, statusOf world service coercions e id showAll = .ok x →
      ∃ d ∈ stored, d.deliveryId = id ∧
        x = (.ok [Overview.Delivery.getSummary d showAll], none) := by
    intro x hx
    obtain ⟨config, d, rest, -, hget, rfl⟩ := statusOf_ok_iff.mp hx
    obtain ⟨hmem, hd⟩ := (mem_getDeliveries hid hserves hstored hget).mp List.mem_cons_self
    exact ⟨d, hmem, hd, rfl⟩
  unfold logExceptionAndExit at hquiet ⊢
  rw [Comp.lift_result] at hquiet ⊢
  cases hresult : statusOf world service coercions e id showAll with
  | ok x =>
      obtain ⟨d, hmem, hd, rfl⟩ := hfirst x hresult
      exact ⟨fun _ => ⟨d, hmem, hd, rfl⟩, fun hne => absurd rfl hne,
        fun _ => ⟨fun _ => ⟨d, hmem, hd⟩, fun _ => rfl⟩, rfl, rfl⟩
  | error err =>
      refine ⟨fun h => (by cases h), fun _ => rfl, fun hreach => ⟨fun h => (by cases h), ?_⟩, rfl,
        rfl⟩
      rintro ⟨d, hmem, hd⟩
      obtain ⟨config, result, hconfig, hget⟩ := exists_getDeliveries hid hserves hstored hreach
      have hd' := (mem_getDeliveries hid hserves hstored hget).mpr ⟨hmem, hd⟩
      cases result with
      | nil => cases hd'
      | cons first rest =>
          rw [statusOf_ok_iff.mpr ⟨config, first, rest, hconfig, hget, rfl⟩] at hresult
          cases hresult

/-- The id `status` asks about. -/
def Asks (files : Files) (coercions : Coercions) (deliveryId deliveryJson : Option String)
    (id : String) : Prop :=
  match deliveryJson with
  | some path => savedDeliveryId files coercions path = .ok id
  | none => deliveryId = some id

lemma status_eq (hid : id ≠ "") (h : Asks files coercions deliveryId deliveryJson id) :
    status files world env service coercions deliveryId deliveryJson pushingEntityId showAll =
      logExceptionAndExit (Comp.lift (statusOf world service coercions
        (onBehalfOf env pushingEntityId) id showAll)) := by
  have hgiven : ¬ ((truthy deliveryId).isNone = true ∧ deliveryJson.isNone = true) := by
    rintro ⟨hnone, hjson⟩
    cases deliveryJson with
    | some path => cases hjson
    | none =>
        obtain rfl : deliveryId = some id := h
        rw [truthy_some hid] at hnone
        cases hnone
  unfold status statusOf
  rw [if_neg hgiven]
  cases deliveryJson with
  | some path =>
      have hsaved : savedDeliveryId files coercions path = .ok id := h
      dsimp only
      rw [hsaved]
      rfl
  | none =>
      obtain rfl : deliveryId = some id := h
      rfl

/-- **A status is never about another delivery**, whether the id is given or read from a file,
as long as it is not empty. -/
theorem status_answers (files : Files) (world : World) (env : Option String)
    (service : IngestionService) (coercions : Coercions)
    (deliveryId deliveryJson pushingEntityId : Option String) (showAll : Bool) (id : String)
    (stored : List Delivery) (hid : id ≠ "")
    (hasks : Asks files coercions deliveryId deliveryJson id) (hserves : Serves service stored)
    (hstored : ∀ x ∈ stored, Produced coercions x) :
    Answers stored id showAll (Reachable world service (onBehalfOf env pushingEntityId) id)
      (status files world env service coercions deliveryId deliveryJson pushingEntityId
        showAll) := by
  rw [status_eq hid hasks]
  exact answers_statusOf hid hserves hstored

theorem status_answers_given : Answers [exampleDelivery "id1", exampleDelivery "id2"] "id1" true
    (Reachable (exampleWorld []) (sendingAll [exampleDelivery "id1", exampleDelivery "id2"]) none
      "id1")
    (status exampleFiles (exampleWorld []) none
      (sendingAll [exampleDelivery "id1", exampleDelivery "id2"]) exampleCoercions (some "id1")
      none none true) :=
  status_answers exampleFiles (exampleWorld []) none
    (sendingAll [exampleDelivery "id1", exampleDelivery "id2"]) exampleCoercions (some "id1") none
    none true "id1" [exampleDelivery "id1", exampleDelivery "id2"] (by decide) rfl
    (serves_sendingAll _) fun x hx => by
      rcases List.mem_pair.mp hx with rfl | rfl
      · exact produced_exampleDelivery exampleCoercions "id1"
      · exact produced_exampleDelivery exampleCoercions "id2"

/-- **What a command has saved can be asked about**: after a delivery that was to be saved, the
file has the delivery that was POSTed, and `status` with that file, wherever it is then, is about
the delivery the service has stored under its id, whatever other id is given beside it. -/
theorem status_of_saved (files : Files) (world : World) (uploads : Uploads)
    (env : Option String) (command : Command) (o : Options) (hdry : o.dryRun = false)
    (hsave : o.saveDeliveryJson = true)
    (hexit : (command.invoke files world uploads env o).exitCode = 0) :
    ∃ d, Delivered files world o (command.invoke files world uploads env o).events d ∧
      (command.invoke files world uploads env o).saved =
        some ⟨d.deliveryId ++ ".json", some (files.jsonDumps (Delivery.modelDump d))⟩ ∧
      ∀ (later : Files) (path : String) (world' : World) (service : IngestionService)
        (coercions : Coercions) (stored : List Delivery)
        (env' deliveryId pushingEntityId : Option String) (showAll : Bool),
        later.read path = .ok (files.jsonDumps (Delivery.modelDump d)) →
        later.jsonLoads (files.jsonDumps (Delivery.modelDump d)) = .ok (Delivery.modelDump d) →
        Serves service stored → (∀ x ∈ stored, Produced coercions x) →
        Answers stored d.deliveryId showAll
          (Reachable world' service (onBehalfOf env' pushingEntityId) d.deliveryId)
          (status later world' env' service coercions deliveryId (some path) pushingEntityId
            showAll) := by
  have htruth := tellsTruth_invoke files world uploads env command o hdry
  obtain ⟨d, hd⟩ := htruth.zero_iff.mp hexit
  obtain ⟨hid, htagged⟩ := identified_of_delivered hdry hd
  have hsaved := htruth.saved d hd
  rw [if_pos hsave] at hsaved
  have hne : d.deliveryId ≠ "" := hid ▸ DeliveryId.createDeliveryId_ne (by decide)
  refine ⟨d, hd, hsaved, ?_⟩
  intro later path world' service coercions stored env' deliveryId e showAll hread hloads hserves
    hstored
  have hasks : Asks later coercions deliveryId (some path) d.deliveryId := by
    show savedDeliveryId later coercions _ = _
    unfold savedDeliveryId
    rw [hread, ok_bind, hloads]
    dsimp only
    rw [show Delivery.modelValidate coercions (Delivery.modelDump d) = .ok d from
      roundTrips_delivery coercions htagged]
    rfl
  rw [status_eq hne hasks]
  exact answers_statusOf hne hserves hstored

/-- The saved delete is asked for when the service has the delivery and one before it. -/
theorem status_of_saved_delete : ∃ d,
    Delivered exampleFiles (exampleWorld []) exampleOptions
      ((Command.delete ["b.nc"]).invoke exampleFiles (exampleWorld [])
        (exampleUploads (.success (some "t1"))) none exampleOptions).events d ∧
    ((Command.delete ["b.nc"]).invoke exampleFiles (exampleWorld [])
        (exampleUploads (.success (some "t1"))) none exampleOptions).saved =
      some ⟨d.deliveryId ++ ".json", some exampleText⟩ ∧
    Answers [d, exampleDelivery "20240101T000000-prod-9999"] d.deliveryId false
      (Reachable (exampleWorld []) (sendingAll [d, exampleDelivery "20240101T000000-prod-9999"])
        none d.deliveryId)
      (status
        { exampleFiles with
          read := fun _ => .ok exampleText
          jsonLoads := fun _ => .ok (Delivery.modelDump d) }
        (exampleWorld []) none (sendingAll [d, exampleDelivery "20240101T000000-prod-9999"])
        exampleCoercions none (some (d.deliveryId ++ ".json")) none false) := by
  obtain ⟨d, hd, hsaved, hanswers⟩ := status_of_saved exampleFiles (exampleWorld [])
    (exampleUploads (.success (some "t1"))) none (.delete ["b.nc"]) exampleOptions rfl rfl
    (by decide +kernel)
  refine ⟨d, hd, hsaved, hanswers _ _ _ _ _ _ _ _ _ _ rfl rfl (serves_sendingAll _) ?_⟩
  intro x hx
  rcases List.mem_pair.mp hx with rfl | rfl
  · obtain ⟨-, htagged⟩ := identified_of_delivered rfl hd
    exact .decoded (roundTrips_delivery exampleCoercions htagged)
  · exact produced_exampleDelivery exampleCoercions _

/-! ### The list of deliveries -/

lemma str_begins (d : Delivery) : ∃ rest : String, Overview.Delivery.str d =
    "[DELIVERY] " ++ d.deliveryId ++ " for pushing entity " ++ rest := by
  unfold Overview.Delivery.str Overview.Delivery.getSummary
  simp only [Bool.false_eq_true, if_false, String.append_assoc]
  split
  · exact ⟨_, rfl⟩
  · exact ⟨_, rfl⟩

/-- **The list shows what the service sends**, each delivery once, the greatest id first, and
each with its id: the deliveries that `list_deliveries` of the Python interface returns for this
entity. -/
theorem listDeliveries_prints (timeframe : TimeframeLiteral) {sent : List Delivery}
    (hsent : ∀ d ∈ sent, Produced coercions d) {token : String}
    (hconfig : world.getConfig = .ok config)
    (htoken : world.fetchKeycloakToken config = .ok token)
    (hreply : service.getDelivery token
      { createdAfter := timeframeToCreatedAfter service timeframe
        onBehalfOf := truthy (onBehalfOf env pushingEntityId) } = .ok (replyOf sent)) :
    ∃ listed : List Delivery, listed.Perm sent ∧
      listed.Pairwise (fun a b => b.deliveryId ≤ a.deliveryId) ∧
      Listing.listDeliveries world service coercions timeframe (onBehalfOf env pushingEntityId) =
        .ok listed ∧
      CommandLine.listDeliveries world env service coercions timeframe pushingEntityId =
        ⟨0, [], if sent = [] then ["No deliveries found."]
          else "\nDeliveries:\n" :: listed.map Overview.Delivery.str, [], none⟩ ∧
      ∀ d ∈ listed, ∃ rest : String, Overview.Delivery.str d =
        "[DELIVERY] " ++ d.deliveryId ++ " for pushing entity " ++ rest := by
  have hget : getDeliveries world service coercions config (onBehalfOf env pushingEntityId) none
      (some timeframe) = .ok (sortById sent) := getDeliveries_of_reply htoken hreply hsent
  have hempty : sortById sent = [] ↔ sent = [] := by
    rw [← List.length_eq_zero_iff, (perm_sortById sent).length_eq, List.length_eq_zero_iff]
  refine ⟨sortById sent, perm_sortById sent, pairwise_sortById sent, ?_, ?_,
    fun d _ => str_begins d⟩
  · rw [Listing.listDeliveries, hconfig, ok_bind, hget]
  · rw [CommandLine.listDeliveries, hconfig, ok_bind, hget, ok_bind, printListDeliveries]
    simp only [hempty]
    rfl

end

end MarineDelivery.Enquiries
