import Mathlib.Data.List.Sort
import Mathlib.Data.String.Basic
import MarineDelivery.Interface
import MarineDelivery.ManifestJson

/-!
Asking the ingestion service for deliveries.

An id that is empty or `None` is not sent, and then the service answers with everything it has.
The deliveries are sorted by their ids, the greatest first, and the status of a delivery is the
first of them, whichever was asked for.
-/

namespace MarineDelivery.Listing

open MarineDelivery.PathLib MarineDelivery.Errors MarineDelivery.Common MarineDelivery.Domain
open MarineDelivery.Validation MarineDelivery.Traced MarineDelivery.Models MarineDelivery.S3
open MarineDelivery.Core MarineDelivery.ManifestJson

/-! ### The request -/

inductive TimeframeLiteral
  | s | m | h | d | w | mo | y | all

def timeframeMapping : TimeframeLiteral → Option ℕ
  | .s => some 1
  | .m => some 60
  | .h => some (60 * 60)
  | .d => some (24 * 60 * 60)
  | .w => some (7 * 24 * 60 * 60)
  | .mo => some (30 * 24 * 60 * 60)
  | .y => some (365 * 24 * 60 * 60)
  | .all => none

/-- The parameters of `GET /delivery`. -/
structure Query where
  deliveryId : Option String := none
  createdAfter : Option String := none
  onBehalfOf : Option String := none

/-- The service, and the clock that says how long ago was when. -/
structure IngestionService where
  getDelivery : String → Query → Except PyError Value
  secondsAgo : ℕ → String

def timeframeToCreatedAfter (service : IngestionService) (timeframe : TimeframeLiteral) :
    Option String :=
  (timeframeMapping timeframe).map service.secondsAgo

/-! ### The reply -/

/-- What a `for` goes through. -/
def iterate : Value → Except PyError (List Value)
  | .list items => .ok items
  | .dict items => .ok (items.map Prod.fst)
  | .str s => .ok (s.toList.map fun c => .str c.toString)
  | v => .error (.typeError s!"'{typeName v}' object is not iterable")

/-- `response.json()["deliveries"]`. -/
def deliveriesOf (reply : Value) : Except PyError (List Value) :=
  match reply.items? with
  | some items =>
    match get? "deliveries" items with
    | some v => iterate v
    | none => .error (.keyError "deliveries")
  | none => .error (.typeError s!"'{typeName reply}' object is not subscriptable")

/-- `Delivery(**delivery_data)`. -/
def deliveryOfKwargs (coercions : Coercions) (deliveryData : Value) : Except PyError Delivery :=
  match deliveryData.items? with
  | some _ => Delivery.modelValidate coercions deliveryData
  | none => .error (.typeError "argument after ** must be a mapping")

/-- The greatest id first; deliveries with one id stay as they are. -/
def sortById (deliveries : List Delivery) : List Delivery :=
  deliveries.insertionSort fun a b => b.deliveryId ≤ a.deliveryId

section

variable (world : World) (service : IngestionService) (coercions : Coercions)

def getDeliveries (config : GetConfigResponse) (onBehalfOf deliveryId : Option String)
    (timeframe : Option TimeframeLiteral) : Except PyError (List Delivery) := do
  let query : Query :=
    { deliveryId := truthy deliveryId
      createdAfter := timeframe.bind (timeframeToCreatedAfter service)
      onBehalfOf := truthy onBehalfOf }
  let token ← world.fetchKeycloakToken config
  let reply ← service.getDelivery token query
  let entries ← deliveriesOf reply
  let deliveries ← entries.mapM (deliveryOfKwargs coercions)
  return sortById deliveries

/-- `str(delivery_id)`. -/
def idText : Option String → String
  | some id => id
  | none => "None"

def deliveryStatus (deliveryId onBehalfOf : Option String) : Except PyError Delivery := do
  let config ← world.getConfig
  let deliveries ← getDeliveries world service coercions config onBehalfOf deliveryId none
  match deliveries with
  | [] => .error (.valueError s!"Delivery with id {idText deliveryId} not found.")
  | delivery :: _ => return delivery

def listDeliveries (timeframe : TimeframeLiteral) (onBehalfOf : Option String) :
    Except PyError (List Delivery) := do
  let config ← world.getConfig
  getDeliveries world service coercions config onBehalfOf none (some timeframe)

end

/-! ### What the service has -/

def replyOf (sent : List Delivery) : Value :=
  .dict [(.str "deliveries", .list (sent.map Delivery.modelDump))]

def selected (stored : List Delivery) : Option String → List Delivery
  | some id => stored.filter (·.deliveryId = id)
  | none => stored

/-- The service answers with the stored deliveries that are asked for, in some order. -/
def Serves (service : IngestionService) (stored : List Delivery) : Prop :=
  ∀ token query reply, query.createdAfter = none → service.getDelivery token query = .ok reply →
    ∃ sent : List Delivery, sent.Perm (selected stored query.deliveryId) ∧ reply = replyOf sent

variable {coercions : Coercions}

lemma perm_sortById (deliveries : List Delivery) : (sortById deliveries).Perm deliveries :=
  List.perm_insertionSort _ deliveries

/-- What the service sends is read as it was. -/
lemma read_replyOf {sent : List Delivery} (h : ∀ d ∈ sent, Produced coercions d) :
    (deliveriesOf (replyOf sent) >>= fun entries =>
      entries.mapM (deliveryOfKwargs coercions)) = .ok sent := by
  have hread : ∀ d ∈ sent, deliveryOfKwargs coercions (Delivery.modelDump d) = .ok d :=
    fun d hd => roundTrips_delivery coercions (h d hd).tagged
  show (sent.map Delivery.modelDump).mapM (deliveryOfKwargs coercions) = .ok sent
  rw [List.mapM_map]
  have hmap := mapM_ok (f := deliveryOfKwargs coercions ∘ Delivery.modelDump) (g := id) hread
  rwa [List.map_id] at hmap

instance : IsTrans Delivery fun a b => b.deliveryId ≤ a.deliveryId :=
  ⟨fun _ _ _ h h' => le_trans h' h⟩
instance : Std.Total fun a b : Delivery => b.deliveryId ≤ a.deliveryId :=
  ⟨fun _ _ => le_total _ _⟩

lemma pairwise_sortById (deliveries : List Delivery) :
    (sortById deliveries).Pairwise fun a b => b.deliveryId ≤ a.deliveryId :=
  List.pairwise_insertionSort _ deliveries

variable {world : World} {service : IngestionService} {config : GetConfigResponse}
variable {onBehalfOf requested : Option String} {timeframe : Option TimeframeLiteral}
variable {stored sent : List Delivery}

/-- A reply gives its deliveries, sorted. -/
lemma getDeliveries_of_reply {token : String}
    (htoken : world.fetchKeycloakToken config = .ok token)
    (hreply : service.getDelivery token
      { deliveryId := truthy requested
        createdAfter := timeframe.bind (timeframeToCreatedAfter service)
        onBehalfOf := truthy onBehalfOf } = .ok (replyOf sent))
    (h : ∀ d ∈ sent, Produced coercions d) :
    getDeliveries world service coercions config onBehalfOf requested timeframe =
      .ok (sortById sent) := by
  have hread := read_replyOf h
  rw [getDeliveries, htoken, ok_bind, hreply, ok_bind]
  obtain ⟨entries, hentries, hread⟩ := bind_eq_ok.mp hread
  rw [hentries, ok_bind, hread, ok_bind]
  rfl

/-- Conversely, what is returned is such a reply. -/
lemma getDeliveries_of_serves (hserves : Serves service stored)
    (h : ∀ d ∈ stored, Produced coercions d) {result : List Delivery}
    (hresult : getDeliveries world service coercions config onBehalfOf requested none =
      .ok result) :
    ∃ sent : List Delivery, sent.Perm (selected stored (truthy requested)) ∧
      result = sortById sent := by
  have hfetch := hresult
  unfold getDeliveries at hfetch
  obtain ⟨token, htoken, hfetch⟩ := bind_eq_ok.mp hfetch
  obtain ⟨reply, hreply, -⟩ := bind_eq_ok.mp hfetch
  obtain ⟨sent, hperm, rfl⟩ := hserves token _ reply rfl hreply
  have hproduced : ∀ d ∈ sent, Produced coercions d := by
    intro d hd
    refine h d ?_
    have hmem := hperm.mem_iff.mp hd
    cases ht : truthy requested with
    | none => rwa [ht] at hmem
    | some id =>
        rw [ht] at hmem
        exact (List.mem_filter.mp hmem).1
  rw [getDeliveries_of_reply htoken hreply hproduced] at hresult
  exact ⟨sent, hperm, (Except.ok.inj hresult).symm⟩

/-! ### The status of a delivery -/

/-- Whatever the service and the world: an answer is about the delivery that was asked for. -/
def AnswersAbout (coercions : Coercions) (stored : List Delivery) (requested : Option String) :
    Prop :=
  ∀ world service onBehalfOf d, Serves service stored →
    deliveryStatus world service coercions requested onBehalfOf = .ok d →
      requested = some d.deliveryId

lemma deliveryStatus_ok {d : Delivery}
    (h : deliveryStatus world service coercions requested onBehalfOf = .ok d) :
    ∃ config rest, getDeliveries world service coercions config onBehalfOf requested none =
      .ok (d :: rest) := by
  unfold deliveryStatus at h
  obtain ⟨config, -, h⟩ := bind_eq_ok.mp h
  obtain ⟨deliveries, hget, h⟩ := bind_eq_ok.mp h
  cases deliveries with
  | nil => cases h
  | cons first rest =>
      cases h
      exact ⟨config, rest, hget⟩

def sendingAll (stored : List Delivery) : IngestionService where
  getDelivery _ query := .ok (replyOf (selected stored query.deliveryId))
  secondsAgo _ := ""

lemma serves_sendingAll (stored : List Delivery) : Serves (sendingAll stored) stored := by
  intro token query reply _ h
  cases h
  exact ⟨_, List.Perm.refl _, rfl⟩

/-- An id that is not sent is answered with the greatest of all. -/
lemma deliveryStatus_of_unsent (hrequested : truthy requested = none)
    (h : ∀ d ∈ stored, Produced coercions d) (hne : stored ≠ []) :
    ∃ d ∈ stored, (∀ x ∈ stored, x.deliveryId ≤ d.deliveryId) ∧
      deliveryStatus (exampleWorld []) (sendingAll stored) coercions requested none = .ok d := by
  have hget : getDeliveries (exampleWorld []) (sendingAll stored) coercions
      ⟨⟨"idp.example", "toolbox", "openid", "password"⟩, ⟨100, 10, 5⟩⟩ none requested none =
        .ok (sortById stored) := by
    refine getDeliveries_of_reply (show (exampleWorld []).fetchKeycloakToken _ = .ok "token"
      from rfl) ?_ h
    rw [hrequested]
    rfl
  have hperm := perm_sortById stored
  have hsorted := pairwise_sortById stored
  cases hlist : sortById stored with
  | nil => exact absurd (hlist ▸ hperm).nil_eq.symm hne
  | cons d rest =>
      rw [hlist] at hget hperm hsorted
      refine ⟨d, hperm.mem_iff.mp List.mem_cons_self, fun x hx => ?_, ?_⟩
      · rcases List.mem_cons.mp (hperm.mem_iff.mpr hx) with rfl | hx
        · exact le_refl _
        · exact (List.pairwise_cons.mp hsorted).1 x hx
      · show (getDeliveries (exampleWorld []) (sendingAll stored) coercions _ none requested
          none >>= _) = _
        rw [hget]
        rfl

lemma eq_empty_of_le {s : String} (h : s ≤ "") : s = "" := by
  have hlt : ¬ s < "" := by
    rw [String.lt_iff_toList_lt]
    exact List.not_lt_nil _
  exact le_antisymm h (not_lt.mp hlt)

/-- **When a status is about the delivery that was asked for**: exactly if a non-empty id is
given, or nothing is stored, or the empty id is given and no stored delivery has another one. -/
theorem answersAbout_iff (coercions : Coercions) (stored : List Delivery)
    (requested : Option String) (h : ∀ d ∈ stored, Produced coercions d) :
    AnswersAbout coercions stored requested ↔
      (∃ id, requested = some id ∧ id ≠ "") ∨ stored = [] ∨
        requested = some "" ∧ ∀ d ∈ stored, d.deliveryId = "" := by
  constructor
  · intro hanswers
    by_cases hid : ∃ id, requested = some id ∧ id ≠ ""
    · exact .inl hid
    by_cases hnil : stored = []
    · exact .inr (.inl hnil)
    have hunsent : truthy requested = none := by
      cases requested with
      | none => rfl
      | some id =>
          have hempty : id = "" := not_not.mp fun hne => hid ⟨id, rfl, hne⟩
          rw [hempty]
          rfl
    obtain ⟨d, -, hgreatest, hstatus⟩ := deliveryStatus_of_unsent hunsent h hnil
    have hd := hanswers _ _ _ d (serves_sendingAll stored) hstatus
    have hempty : d.deliveryId = "" := not_not.mp fun hne => hid ⟨d.deliveryId, hd, hne⟩
    refine .inr (.inr ⟨hempty ▸ hd, fun x hx => eq_empty_of_le ?_⟩)
    exact hempty ▸ hgreatest x hx
  · intro hcases world service onBehalfOf d hserves hstatus
    obtain ⟨config, rest, hget⟩ := deliveryStatus_ok hstatus
    obtain ⟨sent, hperm, hsent⟩ := getDeliveries_of_serves hserves h hget
    have hmem : d ∈ selected stored (truthy requested) := by
      refine hperm.mem_iff.mp ((perm_sortById sent).mem_iff.mp ?_)
      rw [← hsent]
      exact List.mem_cons_self
    rcases hcases with ⟨id, rfl, hne⟩ | rfl | ⟨rfl, hall⟩
    · rw [truthy_some hne] at hmem
      exact congrArg some (of_decide_eq_true (List.mem_filter.mp hmem).2).symm
    · cases ht : truthy requested with
      | none => rw [ht] at hmem; cases hmem
      | some id => rw [ht] at hmem; cases hmem
    · exact congrArg some (hall d hmem).symm

def exampleDelivery (deliveryId : String) : Delivery :=
  createDelivery "entity" "prod" "dset" [] deliveryId

lemma produced_exampleDelivery (coercions : Coercions) (deliveryId : String) :
    Produced coercions (exampleDelivery deliveryId) :=
  .built "entity" "prod" "dset" deliveryId (by simp)

theorem answersAbout_iff_plain :
    AnswersAbout exampleCoercions [exampleDelivery "id1", exampleDelivery "id2"] (some "id1") ↔
      (∃ id, some "id1" = some id ∧ id ≠ "") ∨
        [exampleDelivery "id1", exampleDelivery "id2"] = [] ∨ some "id1" = some "" ∧
          ∀ d ∈ [exampleDelivery "id1", exampleDelivery "id2"], d.deliveryId = "" :=
  answersAbout_iff exampleCoercions [exampleDelivery "id1", exampleDelivery "id2"] (some "id1")
    fun d hd => by
      rcases List.mem_pair.mp hd with rfl | rfl
      · exact produced_exampleDelivery exampleCoercions "id1"
      · exact produced_exampleDelivery exampleCoercions "id2"

/-- A `submit` that failed leaves no id, and its status is that of another delivery. -/
theorem not_answersAbout_fatal :
    ((Interface.Upload.submit (exampleWorld []) (exampleUploads (.success (some "t1"))) none
      ⟨[], none⟩ ⟨"prod", "dset", none, false, 5, 16, 6, false, none⟩).result.map
        (·.deliveryId)) = .ok none ∧
    ¬ AnswersAbout exampleCoercions [exampleDelivery "id1", exampleDelivery "id2"] none := by
  refine ⟨rfl, fun h => ?_⟩
  have hstatus : deliveryStatus (exampleWorld [])
      (sendingAll [exampleDelivery "id1", exampleDelivery "id2"]) exampleCoercions none none =
        .ok (exampleDelivery "id2") := by
    decide +kernel
  cases h _ _ _ _ (serves_sendingAll _) hstatus

end MarineDelivery.Listing
