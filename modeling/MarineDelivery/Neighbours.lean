import MarineDelivery.Bucket
import MarineDelivery.Identity
import MarineDelivery.Interleavings
import MarineDelivery.Puts
import MarineDelivery.Recent

/-!
Calls side by side.

Any number of calls may be under way at once, on one machine or on many, and all of them put
into one bucket. The keys of a call begin with the id of its delivery, and the id tells its
second, its product and its random number; so calls that differ in one of them never touch an
object of each other.
-/

namespace MarineDelivery.Neighbours

open MarineDelivery.PathLib MarineDelivery.Errors MarineDelivery.Common MarineDelivery.Domain
open MarineDelivery.Validation MarineDelivery.S3 MarineDelivery.OrderedDict
open MarineDelivery.Traced MarineDelivery.Processes MarineDelivery.WorkerPool
open MarineDelivery.DeliveryId MarineDelivery.Core MarineDelivery.Calls MarineDelivery.Manifest
open MarineDelivery.Protocol MarineDelivery.Commit MarineDelivery.Bucket
open MarineDelivery.Identity (exists_actsFor permitted_of_run)
open MarineDelivery.Interleavings MarineDelivery.Recent

/-! ### What an id tells -/

/-- The time of an id can be read back. -/
lemma timestamp_eq_iff {t t' : LocalTime} :
    t.timestamp = t'.timestamp ↔ t.year = t'.year ∧ t.month = t'.month ∧ t.day = t'.day ∧
      t.hour = t'.hour ∧ t.minute = t'.minute ∧ t.second = t'.second := by
  constructor
  · intro h
    have hyear := t.year_mem
    have hmonth := t.month_mem
    have hday := t.day_mem
    have hhour := t.hour_lt
    have hminute := t.minute_lt
    have hsecond := t.second_lt
    have hyear' := t'.year_mem
    have hmonth' := t'.month_mem
    have hday' := t'.day_mem
    have hhour' := t'.hour_lt
    have hminute' := t'.minute_lt
    have hsecond' := t'.second_lt
    simp only [LocalTime.timestamp, List.append_assoc] at h
    obtain ⟨hy, h⟩ := List.append_inj h (by simp)
    obtain ⟨hm, h⟩ := List.append_inj h (by simp)
    obtain ⟨hd, h⟩ := List.append_inj h (by simp)
    obtain ⟨hh, h⟩ := List.append_inj (List.cons.inj h).2 (by simp)
    obtain ⟨hmin, hs⟩ := List.append_inj h (by simp)
    exact ⟨(digits_inj (by omega) (by omega)).mp hy, (digits_inj (by omega) (by omega)).mp hm,
      (digits_inj (by omega) (by omega)).mp hd, (digits_inj (by omega) (by omega)).mp hh,
      (digits_inj (by omega) (by omega)).mp hmin, (digits_inj (by omega) (by omega)).mp hs⟩
  · rintro ⟨hy, hm, hd, hh, hmin, hs⟩
    rw [LocalTime.timestamp, LocalTime.timestamp, hy, hm, hd, hh, hmin, hs]

/-- **An id tells what it was made of**: two ids are equal exactly when they were made in the
same second of local time, for the same product and with the same random number. -/
theorem createDeliveryId_eq_iff {t t' : LocalTime} {r r' : RandomNumber} {p p' : String} :
    createDeliveryId t r p = createDeliveryId t' r' p' ↔
      (t.year = t'.year ∧ t.month = t'.month ∧ t.day = t'.day ∧ t.hour = t'.hour ∧
        t.minute = t'.minute ∧ t.second = t'.second) ∧ r.val = r'.val ∧ p = p' := by
  rw [← timestamp_eq_iff, ← String.toList_inj]
  simp only [createDeliveryId, String.toList_append, String.toList_ofList, List.append_assoc]
  constructor
  · intro h
    obtain ⟨ht, h⟩ := List.append_inj h (by simp)
    have hrest := List.append_cancel_left h
    rw [← List.append_assoc, ← List.append_assoc] at hrest
    obtain ⟨hp, hr⟩ := List.append_inj' hrest (by simp)
    have hval := r.val_mem
    have hval' := r'.val_mem
    refine ⟨ht, (digits_inj (by omega) (by omega)).mp hr, ?_⟩
    exact String.toList_inj.mp (List.append_cancel_right hp)
  · rintro ⟨ht, hr, rfl⟩
    rw [ht, hr]

/-! ### The keys of a call -/

variable {world : World} {args : CallArgs}
variable {times : ℕ → PosixPath → UploadTimes} {request : Request} {labels : List Protocol.Label}
variable {s : State}

/-- The key lies under `data/{delivery_id}/`. -/
def BelongsTo (did key : String) : Prop := ("data/" ++ did ++ "/").toList <+: key.toList

lemma belongsTo_newDataBucketPath (did pid ds fileName : String) :
    BelongsTo did (newDataBucketPath did pid ds fileName) :=
  ⟨(pid ++ "/" ++ ds ++ "/" ++ fileName).toList, by
    simp [newDataBucketPath, String.toList_append]⟩

/-- No key belongs to two deliveries. -/
lemma BelongsTo.inj {did did' key : String} (hslash : '/' ∉ did.toList)
    (hslash' : '/' ∉ did'.toList) (h : BelongsTo did key) (h' : BelongsTo did' key) :
    did = did' := by
  obtain ⟨rest, hrest⟩ := h
  obtain ⟨rest', hrest'⟩ := h'
  have hkeys : did.toList ++ '/' :: rest = did'.toList ++ '/' :: rest' := by
    have hboth := hrest.trans hrest'.symm
    simp only [String.toList_append, List.append_assoc] at hboth
    exact List.append_cancel_left hboth
  have hafter := congrArg (Segments.afterFirst '/') hkeys
  rw [Segments.afterFirst_append hslash, Segments.afterFirst_append hslash'] at hafter
  rw [Option.some.inj hafter] at hkeys
  exact String.toList_inj.mp (List.append_cancel_right hkeys)

/-- **A call puts under its own id only.** -/
lemma belongsTo_of_reaches (h : Reaches world args times request labels s) {q : PutCall}
    {a : PutAttempt} (hq : Event.ended q a ∈ s.trace) :
    BelongsTo (newDeliveryId world args) q.key := by
  obtain ⟨session, pending, hprep, hrun⟩ := h
  obtain ⟨pec, -, -, hclient⟩ := exists_actsFor hprep
  obtain ⟨u, -, f, -, -, hkey⟩ := (permitted_of_run hprep hrun hclient hq rfl).file
  rw [hkey]
  exact belongsTo_newDataBucketPath _ _ _ _

/-! ### Many calls -/

/-- A call that has come this far. -/
structure CallSoFar where
  world : World
  args : CallArgs
  times : ℕ → PosixPath → UploadTimes
  request : Request
  labels : List Protocol.Label
  state : State
  reached : Reaches world args times request labels state

def CallSoFar.deliveryId (call : CallSoFar) : String := newDeliveryId call.world call.args

def CallSoFar.trace (call : CallSoFar) : List Event := call.state.trace

/-- The calls have ids of their own, and a product id is one piece of a key. -/
structure Apart {ι : Type} (calls : ι → CallSoFar) : Prop where
  slash : ∀ i, '/' ∉ (calls i).args.productId.toList
  inj : ∀ i j, (calls i).deliveryId = (calls j).deliveryId → i = j

/-- A put to the key that has ended. -/
def endedAt (key : String) : Event → Bool
  | .ended call _ => call.key = key
  | _ => false

lemma store_of_not_endedAt {key : String} (bucket : String → Option (Option String)) {e : Event}
    (h : endedAt key e = false) : store bucket e key = bucket key := by
  refine store_of_ne fun call eTag he => ?_
  subst he
  exact of_decide_eq_false h

lemma store_congr {key : String} {bucket bucket' : String → Option (Option String)}
    (h : bucket key = bucket' key) (e : Event) : store bucket e key = store bucket' e key := by
  cases he : endedAt key e with
  | false => rw [store_of_not_endedAt _ he, store_of_not_endedAt _ he, h]
  | true =>
      rcases e with call | ⟨call, eTag | text | text⟩ | d
      case ended.success =>
          obtain rfl : call.key = key := of_decide_eq_true he
          rw [store, store, Function.update_self, Function.update_self]
      all_goals exact h

variable {ι : Type} [DecidableEq ι] {calls : ι → CallSoFar} {traces : ι → List Event}
variable {merged : List Event}

/-- **Under the id of a call** the bucket holds what the call has put, whatever the others do. -/
theorem stored_apart (hapart : Apart calls)
    (hsub : ∀ j, ∀ e ∈ traces j, e ∈ (calls j).trace) (h : Interleaves traces merged) {i : ι}
    {key : String} (hkey : BelongsTo (calls i).deliveryId key) :
    stored merged key = stored (traces i) key := by
  have hslash : ∀ j, '/' ∉ (calls j).deliveryId.toList :=
    fun j => createDeliveryId_ne_slash (hapart.slash j)
  have hother : ∀ j ≠ i, ∀ e ∈ traces j, endedAt key e = false := by
    intro j hj e he
    cases e with
    | started q | posted d => rfl
    | ended q a =>
        refine decide_eq_false fun hq => hj (hapart.inj j i ?_)
        have hbelongs := belongsTo_of_reaches (calls j).reached (hsub j _ he)
        rw [hq] at hbelongs
        exact hbelongs.inj (hslash j) (hslash i) hkey
  exact h.foldl_eq (fun f g e hfg => store_congr hfg e)
    (fun f e he => store_of_not_endedAt f he) hother _

/-- What is kept is kept where as much has been put and the keys of the call hold the same. -/
lemma objectsKept_mono {own pre : List Event} {n : ℕ} {ds : String} {op : RequestedOperation}
    {o : Operation} (hsub : ∀ e ∈ own, e ∈ pre)
    (hstored : ∀ q a, Event.ended q a ∈ own → stored pre q.key = stored own q.key)
    (h : ObjectsKept own n ds op o) : ObjectsKept pre n ds op o := by
  cases op with
  | delete requested => cases o <;> exact h
  | upload requested =>
      cases o with
      | delete posted => exact h
      | upload posted =>
          obtain ⟨listed, hlisted, hkept⟩ := h
          refine ⟨listed, hlisted, hkept.imp fun file entry hentry => ?_⟩
          obtain ⟨q, t, hq, hn, hfile, hsuffix, eTag, hobject, hsum⟩ := hentry
          exact ⟨q, t, hsub _ hq, hn, hfile, hsuffix, eTag, (hstored q _ hq).trans hobject, hsum⟩

/-- **Calls do not disturb one another.** Each call puts under its own id only. However calls
with ids of their own are interleaved, at every point the bucket holds under the id of each just
what it would hold had this call been alone; and what the manifest of a delivery names is there
at the POST if it would be then. -/
theorem neighbours_apart (hapart : Apart calls) {pre rest : List Event}
    (h : Interleaves (fun i => (calls i).trace) (pre ++ rest)) :
    (∀ i q a, Event.ended q a ∈ (calls i).trace → BelongsTo (calls i).deliveryId q.key) ∧
    ∃ before : ι → List Event, Interleaves before pre ∧
      (∀ i, before i <+: (calls i).trace) ∧
      (∀ i key, BelongsTo (calls i).deliveryId key →
        stored pre key = stored (before i) key) ∧
      ∀ d post, rest = .posted d :: post →
        ∃ i after, (calls i).trace = before i ++ .posted d :: after ∧
          d.deliveryId = (calls i).deliveryId ∧
          ∀ n ds op o, ObjectsKept (before i) n ds op o → ObjectsKept pre n ds op o := by
  have howns : ∀ i q a, Event.ended q a ∈ (calls i).trace →
      BelongsTo (calls i).deliveryId q.key :=
    fun i q a hq => belongsTo_of_reaches (calls i).reached hq
  obtain ⟨before, hbefore, hbegins, hnext⟩ := h.split
  have hstored : ∀ i key, BelongsTo (calls i).deliveryId key →
      stored pre key = stored (before i) key :=
    fun i key hkey => stored_apart hapart (fun j e he => (hbegins j).subset he) hbefore hkey
  refine ⟨howns, before, hbefore, hbegins, hstored, fun d post hpost => ?_⟩
  obtain ⟨i, after, hafter⟩ := hnext _ post hpost
  have hid : d.deliveryId = (calls i).deliveryId := by
    obtain ⟨session, pending, hprep, hrun⟩ := (calls i).reached
    obtain ⟨_, _, -, rfl, -⟩ := posted_split (inv_of_run hrun) hafter
    exact (prepare_ok hprep).1
  refine ⟨i, after, hafter, hid, fun n ds op o => ?_⟩
  exact objectsKept_mono (fun e he => hbefore.mem he) fun q a hq =>
    hstored i _ (howns i q a ((hbegins i).subset hq))

/-! ### Two calls in one second -/

def worldNumbered (number : RandomNumber) : World :=
  { exampleWorld [("a.nc", 10)] with randomNumber := number }

def itemNumbered (number : RandomNumber) : PosixPath × String :=
  (PosixPath.ofString "a.nc",
    ingestionKey (newDeliveryId (worldNumbered number) exampleArgs) "prod" "dset" none "a.nc")

/-- One file is put and its delivery POSTed. -/
def labelsNumbered (number : RandomNumber) : List Protocol.Label :=
  .next :: putOnce (itemNumbered number) "t1" ++ [.close, .submit]

def sessionNumbered (number : RandomNumber) : Session :=
  { exampleSession [] with deliveryId := newDeliveryId (worldNumbered number) exampleArgs }

def otherNumber : RandomNumber := ⟨4321, by decide⟩

lemma exists_callNumbered (number : RandomNumber)
    (hprep : (Request.upload ["a.nc"] none).prepare (worldNumbered number) exampleArgs =
      .ok (sessionNumbered number, Puts.onlyPending))
    (hrun : ((run (Protocol.step (worldNumbered number) exampleArgs (sessionNumbered number)
      exampleTimes) { todo := Puts.onlyPending } (labelsNumbered number)).map fun s =>
        (s.trace.filterMap postedDelivery).isEmpty) = some false) :
    ∃ call : CallSoFar, call.deliveryId = newDeliveryId (worldNumbered number) exampleArgs ∧
      call.args.productId = "prod" ∧ ∃ d, Event.posted d ∈ call.trace := by
  obtain ⟨s, hs, hposted⟩ := Option.map_eq_some_iff.mp hrun
  obtain ⟨d, hd⟩ := List.isEmpty_eq_false_iff_exists_mem.mp hposted
  obtain ⟨e, he, hsome⟩ := List.mem_filterMap.mp hd
  refine ⟨⟨worldNumbered number, exampleArgs, exampleTimes, _, _, s, _, _, hprep, hs⟩, rfl, rfl,
    d, ?_⟩
  cases e <;> cases hsome
  exact he

theorem neighbours_apart_two : ∃ (calls : Bool → CallSoFar) (pre : List Event) (d : Delivery)
    (post : List Event), (calls false).deliveryId ≠ (calls true).deliveryId ∧
    Interleaves (fun i => (calls i).trace) (pre ++ .posted d :: post) ∧
    (∀ i q a, Event.ended q a ∈ (calls i).trace → BelongsTo (calls i).deliveryId q.key) ∧
    ∃ before : Bool → List Event, Interleaves before pre ∧
      (∀ i, before i <+: (calls i).trace) ∧
      (∀ i key, BelongsTo (calls i).deliveryId key →
        stored pre key = stored (before i) key) ∧
      ∀ d' post', .posted d :: post = .posted d' :: post' →
        ∃ i after, (calls i).trace = before i ++ .posted d' :: after ∧
          d'.deliveryId = (calls i).deliveryId ∧
          ∀ n ds op o, ObjectsKept (before i) n ds op o → ObjectsKept pre n ds op o := by
  obtain ⟨call, hid, hproduct, -⟩ :=
    exists_callNumbered exampleNumber (by decide +kernel) (by decide +kernel)
  obtain ⟨call', hid', hproduct', d, hd⟩ :=
    exists_callNumbered otherNumber (by decide +kernel) (by decide +kernel)
  have hne : call.deliveryId ≠ call'.deliveryId := by
    rw [hid, hid']
    decide +kernel
  have hapart : Apart fun second : Bool => if second then call' else call := by
    refine ⟨fun i => ?_, fun i j h => ?_⟩
    · cases i
      · simp [hproduct]
      · simp [hproduct']
    · cases i <;> cases j
      · rfl
      · exact absurd h hne
      · exact absurd h.symm hne
      · rfl
  obtain ⟨own, after, hsplit⟩ := List.append_of_mem hd
  have hmerged : Interleaves (fun second : Bool => (if second then call' else call).trace)
      ((call.trace ++ own) ++ .posted d :: after) := by
    have happend := interleaves_append call.trace call'.trace
    rw [hsplit, ← List.append_assoc, ← hsplit] at happend
    convert happend using 2 with second
    cases second <;> rfl
  refine ⟨fun second : Bool => if second then call' else call, call.trace ++ own, d, after, ?_,
    hmerged, neighbours_apart hapart hmerged⟩
  simpa using hne

end MarineDelivery.Neighbours
