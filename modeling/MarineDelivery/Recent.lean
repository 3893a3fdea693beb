import Mathlib.Data.List.TakeWhile
import MarineDelivery.Calendar
import MarineDelivery.Listing

/-!
Most recent first.

The id of a delivery begins with the local time at which it was made, in digits of fixed width,
so that the order of the ids is that of the local clocks. It is the order of the instants when
no clock that is ahead was read before one that is behind.
-/

namespace MarineDelivery.Recent

open MarineDelivery.Errors MarineDelivery.Common MarineDelivery.Domain MarineDelivery.Validation
open MarineDelivery.DeliveryId MarineDelivery.Traced MarineDelivery.Models MarineDelivery.Core
open MarineDelivery.ManifestJson MarineDelivery.Listing MarineDelivery.Calendar

/-- How the id of a delivery was made; the offset of the local clock from UTC is in seconds. -/
structure Creation where
  clock : LocalTime
  day_le : clock.day ≤ daysInMonth clock.year clock.month
  utcOffset : ℤ
  productId : String
  randomNumber : RandomNumber

namespace Creation

def deliveryId (c : Creation) : String := createDeliveryId c.clock c.randomNumber c.productId

/-- The seconds of the local clock, from the year zero. -/
def seconds (c : Creation) : ℕ :=
  ((ordinal c.clock.year c.clock.month c.clock.day * 24 + c.clock.hour) * 60 +
    c.clock.minute) * 60 + c.clock.second

/-- The second in which the id was made, by UTC. -/
def instant (c : Creation) : ℤ := c.seconds - c.utcOffset

def suffix (c : Creation) : String :=
  c.productId ++ "-" ++ String.ofList (digits 4 c.randomNumber.val)

/-- The local clock is behind, or shows the same second and the rest of the id is smaller. -/
def Before (c c' : Creation) : Prop :=
  c.seconds < c'.seconds ∨ c.seconds = c'.seconds ∧ c.suffix < c'.suffix

end Creation

/-! ### Digits -/

lemma append_lt_append_iff {a b c d : List Char} (h : a.length = b.length) :
    a ++ c < b ++ d ↔ a < b ∨ a = b ∧ c < d := by
  induction a generalizing b with
  | nil =>
      obtain rfl : b = [] := List.eq_nil_of_length_eq_zero h.symm
      simp
  | cons x a ih =>
      cases b with
      | nil => cases h
      | cons y b =>
          rw [List.cons_append, List.cons_append, List.cons_lt_cons_iff, List.cons_lt_cons_iff,
            ih (Nat.succ.inj h), List.cons.injEq]
          tauto

@[simp] lemma length_digits (w n : ℕ) : (digits w n).length = w := by
  induction w generalizing n with
  | zero => rfl
  | succ w ih => rw [digits, List.length_append, ih, List.length_singleton]

lemma digitChar_lt_iff {n m : ℕ} (hn : n < 10) (hm : m < 10) :
    Nat.digitChar n < Nat.digitChar m ↔ n < m := by
  have hall : ∀ n < 10, ∀ m < 10, (Nat.digitChar n < Nat.digitChar m ↔ n < m) := by decide
  exact hall n hn m hm

/-- The order of numbers of one width is that of their digits. -/
lemma digits_lt_iff {w n m : ℕ} (hn : n < 10 ^ w) (hm : m < 10 ^ w) :
    digits w n < digits w m ↔ n < m := by
  induction w generalizing n m with
  | zero =>
      rw [pow_zero] at hn hm
      simp only [digits, lt_irrefl, false_iff]
      omega
  | succ w ih =>
      have hn' : n / 10 < 10 ^ w := Nat.div_lt_of_lt_mul (by rwa [pow_succ'] at hn)
      have hm' : m / 10 < 10 ^ w := Nat.div_lt_of_lt_mul (by rwa [pow_succ'] at hm)
      have heq : digits w (n / 10) = digits w (m / 10) ↔ n / 10 = m / 10 := by
        refine ⟨fun h => ?_, fun h => h ▸ rfl⟩
        have hle := (ih hn' hm').not.mp (h ▸ lt_irrefl _)
        have hge := (ih hm' hn').not.mp (h ▸ lt_irrefl _)
        omega
      rw [digits, digits, append_lt_append_iff (by simp), ih hn' hm', heq,
        List.cons_lt_cons_iff, digitChar_lt_iff (Nat.mod_lt _ (by decide))
          (Nat.mod_lt _ (by decide))]
      simp only [List.not_lt_nil, and_false, or_false]
      omega

lemma digits_inj {w n m : ℕ} (hn : n < 10 ^ w) (hm : m < 10 ^ w) :
    digits w n = digits w m ↔ n = m := by
  refine ⟨fun h => ?_, fun h => h ▸ rfl⟩
  have hle := (digits_lt_iff hn hm).not.mp (h ▸ lt_irrefl _)
  have hge := (digits_lt_iff hm hn).not.mp (h ▸ lt_irrefl _)
  omega

/-! ### Timestamps -/

namespace Creation

variable {c c' : Creation}

/-- The fields of the clock, one after the other. -/
def Behind (c c' : Creation) : Prop :=
  c.clock.year < c'.clock.year ∨ c.clock.year = c'.clock.year ∧
    (c.clock.month < c'.clock.month ∨ c.clock.month = c'.clock.month ∧
    (c.clock.day < c'.clock.day ∨ c.clock.day = c'.clock.day ∧
    (c.clock.hour < c'.clock.hour ∨ c.clock.hour = c'.clock.hour ∧
    (c.clock.minute < c'.clock.minute ∨ c.clock.minute = c'.clock.minute ∧
      c.clock.second < c'.clock.second))))

lemma seconds_lt_iff : c.seconds < c'.seconds ↔ c.Behind c' := by
  have hm := c.clock.month_mem.2
  have hd := c.clock.day_mem.1
  have hm' := c'.clock.month_mem.2
  have hd' := c'.clock.day_mem.1
  rw [seconds, seconds, mul_add_lt_iff c.clock.second_lt c'.clock.second_lt,
    mul_add_lt_iff c.clock.minute_lt c'.clock.minute_lt, mul_add_lt_iff c.clock.hour_lt
      c'.clock.hour_lt, mul_add_inj c.clock.minute_lt c'.clock.minute_lt,
    mul_add_inj c.clock.hour_lt c'.clock.hour_lt, ordinal_lt_iff hm hd c.day_le hm' hd'
      c'.day_le, ordinal_inj hm hd c.day_le hm' hd' c'.day_le, Behind]
  -- both sides are the same comparison field by field, nested to the left and to the right
  simp only [or_assoc, and_assoc, ← and_or_left]

lemma digits_append_lt_iff {w n m : ℕ} {l l' : List Char} (hn : n < 10 ^ w) (hm : m < 10 ^ w) :
    digits w n ++ l < digits w m ++ l' ↔ n < m ∨ n = m ∧ l < l' := by
  rw [append_lt_append_iff (by simp), digits_lt_iff hn hm, digits_inj hn hm]

lemma timestamp_lt_iff : c.clock.timestamp < c'.clock.timestamp ↔ c.Behind c' := by
  have hy : ∀ t : LocalTime, t.year < 10 ^ 4 := fun t => by have := t.year_mem; omega
  have hm : ∀ t : LocalTime, t.month < 10 ^ 2 := fun t => by have := t.month_mem; omega
  have hd : ∀ t : LocalTime, t.day < 10 ^ 2 := fun t => by have := t.day_mem; omega
  have hh : ∀ t : LocalTime, t.hour < 10 ^ 2 := fun t => by have := t.hour_lt; omega
  have hmi : ∀ t : LocalTime, t.minute < 10 ^ 2 := fun t => by have := t.minute_lt; omega
  have hs : ∀ t : LocalTime, t.second < 10 ^ 2 := fun t => by have := t.second_lt; omega
  simp only [LocalTime.timestamp, List.append_assoc]
  rw [digits_append_lt_iff (hy _) (hy _), digits_append_lt_iff (hm _) (hm _),
    digits_append_lt_iff (hd _) (hd _), List.cons_lt_cons_iff,
    digits_append_lt_iff (hh _) (hh _), digits_append_lt_iff (hmi _) (hmi _),
    digits_lt_iff (hs _) (hs _)]
  simp [Behind]

lemma timestamp_inj : c.clock.timestamp = c'.clock.timestamp ↔ c.seconds = c'.seconds := by
  have hlt : c.clock.timestamp < c'.clock.timestamp ↔ c.seconds < c'.seconds :=
    timestamp_lt_iff.trans seconds_lt_iff.symm
  have hgt : c'.clock.timestamp < c.clock.timestamp ↔ c'.seconds < c.seconds :=
    timestamp_lt_iff.trans seconds_lt_iff.symm
  constructor
  · intro h
    exact le_antisymm (not_lt.mp (hgt.not.mp h.not_gt)) (not_lt.mp (hlt.not.mp h.not_lt))
  · intro h
    exact le_antisymm (not_lt.mp (hgt.not.mpr h.not_gt)) (not_lt.mp (hlt.not.mpr h.not_lt))

lemma toList_deliveryId (c : Creation) :
    c.deliveryId.toList = c.clock.timestamp ++ '-' :: c.suffix.toList := by
  simp [deliveryId, createDeliveryId, suffix, String.toList_append]

@[simp] lemma length_timestamp (t : LocalTime) : t.timestamp.length = 15 := by
  simp [LocalTime.timestamp]

/-- **Ids are ordered as the clocks**, and then as what follows the timestamp. -/
theorem deliveryId_lt_iff : c.deliveryId < c'.deliveryId ↔ c.Before c' := by
  rw [String.lt_iff_toList_lt, toList_deliveryId, toList_deliveryId,
    append_lt_append_iff (by simp), List.cons_lt_cons_iff, ← String.lt_iff_toList_lt,
    timestamp_lt_iff, timestamp_inj, ← seconds_lt_iff]
  simp [Before]

/-- On one day, the time of day and the offset decide. -/
lemma instant_lt_of_date (hyear : c.clock.year = c'.clock.year)
    (hmonth : c.clock.month = c'.clock.month) (hday : c.clock.day = c'.clock.day)
    (h : (((c.clock.hour * 60 + c.clock.minute) * 60 + c.clock.second : ℕ) : ℤ) - c.utcOffset <
      (((c'.clock.hour * 60 + c'.clock.minute) * 60 + c'.clock.second : ℕ) : ℤ) - c'.utcOffset) :
    c.instant < c'.instant := by
  unfold instant seconds
  rw [hyear, hmonth, hday]
  omega

end Creation

/-! ### The list of deliveries -/

variable {coercions : Coercions} {stored : List Delivery} {creation : Delivery → Creation}

/-- Whatever the order in which the service sends the deliveries: every one is listed once, and
none after one that was made in an earlier second. -/
def RecentFirst (coercions : Coercions) (stored : List Delivery)
    (creation : Delivery → Creation) : Prop :=
  ∀ (world : World) (service : IngestionService) (config : GetConfigResponse) (token : String)
    (onBehalfOf : Option String) (timeframe : Option TimeframeLiteral) (sent : List Delivery),
    world.fetchKeycloakToken config = .ok token →
    (∀ query, service.getDelivery token query = .ok (replyOf sent)) → sent.Perm stored →
    ∃ listed, getDeliveries world service coercions config onBehalfOf none timeframe =
        .ok listed ∧
      listed.Perm stored ∧
      listed.Pairwise fun d e => (creation e).instant ≤ (creation d).instant

lemma recentFirst_iff_sortById (h : ∀ d ∈ stored, Produced coercions d) :
    RecentFirst coercions stored creation ↔ ∀ sent : List Delivery, sent.Perm stored →
      (sortById sent).Pairwise fun d e => (creation e).instant ≤ (creation d).instant := by
  have hproduced : ∀ sent : List Delivery, sent.Perm stored →
      ∀ d ∈ sent, Produced coercions d := fun sent hperm d hd => h d (hperm.mem_iff.mp hd)
  constructor
  · intro hrecent sent hperm
    have hget : getDeliveries (exampleWorld []) ⟨fun _ _ => .ok (replyOf sent), fun _ => ""⟩
        coercions ⟨⟨"idp.example", "toolbox", "openid", "password"⟩, ⟨100, 10, 5⟩⟩ none none none =
          .ok (sortById sent) :=
      getDeliveries_of_reply (show (exampleWorld []).fetchKeycloakToken _ = .ok "token" from rfl)
        rfl (hproduced sent hperm)
    obtain ⟨listed, hlisted, -, hpairwise⟩ := hrecent (exampleWorld [])
      ⟨fun _ _ => .ok (replyOf sent), fun _ => ""⟩ _ "token" none none sent rfl (fun _ => rfl)
      hperm
    rw [hget] at hlisted
    cases hlisted
    exact hpairwise
  · intro hsort world service config token onBehalfOf timeframe sent htoken hservice hperm
    exact ⟨sortById sent, getDeliveries_of_reply htoken (hservice _) (hproduced sent hperm),
      (perm_sortById sent).trans hperm, hsort sent hperm⟩

/-- The delivery that is sent first comes before all with smaller or equal ids. -/
lemma sortById_cons (d : Delivery) (rest : List Delivery) :
    ∃ before after, sortById (d :: rest) = before ++ d :: after ∧
      ∀ e ∈ rest, e.deliveryId ≤ d.deliveryId → e ∈ after := by
  refine ⟨_, _, List.insertionSort_cons_eq_take_drop _ d rest, fun e he hle => ?_⟩
  have hmem : e ∈ sortById rest := (perm_sortById rest).mem_iff.mpr he
  rw [← List.takeWhile_append_dropWhile (p := fun b : Delivery => ¬ b.deliveryId ≤ d.deliveryId)
    (l := sortById rest)] at hmem
  rcases List.mem_append.mp hmem with hmem | hmem
  · exact absurd hle (by simpa using List.mem_takeWhile_imp hmem)
  · exact hmem

/-- **When the list is sorted by time**: exactly if an earlier second of UTC always has the
smaller local time or, at the same local time, the smaller rest of the id. -/
theorem recentFirst_iff (coercions : Coercions) (stored : List Delivery)
    (creation : Delivery → Creation) (h : ∀ d ∈ stored, Produced coercions d)
    (hid : ∀ d ∈ stored, d.deliveryId = (creation d).deliveryId) :
    RecentFirst coercions stored creation ↔
      ∀ d ∈ stored, ∀ e ∈ stored, (creation d).instant < (creation e).instant →
        (creation d).Before (creation e) := by
  rw [recentFirst_iff_sortById h]
  constructor
  · intro hsort d hd e he hinstant
    by_contra hbefore
    have hne : e ≠ d := by
      rintro rfl
      exact lt_irrefl _ hinstant
    have hle : e.deliveryId ≤ d.deliveryId := by
      rw [hid d hd, hid e he]
      exact not_lt.mp (Creation.deliveryId_lt_iff.not.mpr hbefore)
    have hperm : (d :: stored.erase d).Perm stored := (List.perm_cons_erase hd).symm
    obtain ⟨before, after, hlist, hafter⟩ := sortById_cons d (stored.erase d)
    have hpairwise := hsort _ hperm
    rw [hlist, List.pairwise_append] at hpairwise
    have hmem := hafter e ((List.mem_erase_of_ne hne).mpr he) hle
    have hge := (List.pairwise_cons.mp hpairwise.2.1).1 e hmem
    omega
  · intro hclocks sent hperm
    have hsub : ∀ d ∈ sortById sent, d ∈ stored :=
      fun d hd => hperm.mem_iff.mp ((perm_sortById sent).mem_iff.mp hd)
    refine (pairwise_sortById sent).imp_of_mem fun {d e} hd he hle => ?_
    by_contra hinstant
    have hbefore := hclocks d (hsub d hd) e (hsub e he) (not_le.mp hinstant)
    rw [← Creation.deliveryId_lt_iff, ← hid d (hsub d hd), ← hid e (hsub e he)] at hbefore
    exact absurd hle (not_le.mpr hbefore)

/-- Between two and three in the night in which the clocks go back. -/
def exampleCreation (minute : ℕ) (h : minute < 60) (utcOffset : ℤ) : Creation where
  clock := ⟨2024, 10, 27, 2, minute, 0, by decide, by decide, by decide, by decide, h, by decide⟩
  day_le := show 27 ≤ daysInMonth 2024 10 by decide
  utcOffset
  productId := "prod"
  randomNumber := exampleNumber

def summerTime : Creation := exampleCreation 30 (by decide) 7200
def winterTime : Creation := exampleCreation 0 (by decide) 3600

def exampleStored : List Delivery :=
  [exampleDelivery summerTime.deliveryId, exampleDelivery winterTime.deliveryId]

def exampleOrigin (d : Delivery) : Creation :=
  if d.deliveryId = summerTime.deliveryId then summerTime else winterTime

lemma produced_exampleStored : ∀ d ∈ exampleStored, Produced exampleCoercions d := by
  intro d hd
  rcases List.mem_pair.mp hd with rfl | rfl
  · exact produced_exampleDelivery _ _
  · exact produced_exampleDelivery _ _

lemma deliveryId_exampleStored :
    ∀ d ∈ exampleStored, d.deliveryId = (exampleOrigin d).deliveryId := by
  decide +kernel

theorem recentFirst_iff_night :
    RecentFirst exampleCoercions exampleStored exampleOrigin ↔
      ∀ d ∈ exampleStored, ∀ e ∈ exampleStored,
        (exampleOrigin d).instant < (exampleOrigin e).instant →
          (exampleOrigin d).Before (exampleOrigin e) :=
  recentFirst_iff exampleCoercions exampleStored exampleOrigin produced_exampleStored
    deliveryId_exampleStored

lemma sortById_exampleStored : sortById exampleStored = exampleStored := by
  decide +kernel

/-- The earlier delivery is listed first. -/
theorem not_recentFirst_night :
    (∀ d ∈ exampleStored, d.deliveryId = (exampleOrigin d).deliveryId) ∧
      ¬ RecentFirst exampleCoercions exampleStored exampleOrigin := by
  refine ⟨deliveryId_exampleStored, fun h => ?_⟩
  have hsorted := (recentFirst_iff_sortById produced_exampleStored).mp h exampleStored
    (List.Perm.refl _)
  rw [sortById_exampleStored] at hsorted
  have hsummer : exampleOrigin (exampleDelivery summerTime.deliveryId) = summerTime := if_pos rfl
  have hwinter : exampleOrigin (exampleDelivery winterTime.deliveryId) = winterTime :=
    if_neg (by decide +kernel)
  have hle := (List.pairwise_cons.mp hsorted).1 _ (List.mem_singleton_self _)
  rw [hsummer, hwinter] at hle
  have hlt : summerTime.instant < winterTime.instant :=
    Creation.instant_lt_of_date rfl rfl rfl (by decide)
  exact absurd hlt (not_lt.mpr hle)

end MarineDelivery.Recent
