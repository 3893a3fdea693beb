import Mathlib.Data.List.Basic
import Mathlib.Data.String.Basic
import MarineDelivery.PathLib

/-!
The id of a delivery: local time to the second, product id, four-digit random number.
-/

namespace MarineDelivery.DeliveryId

open MarineDelivery.PathLib

/-- The last `w` decimal digits of a number, leading zeros written. -/
def digits : ℕ → ℕ → List Char
  | 0, _ => []
  | w + 1, n => digits w (n / 10) ++ [Nat.digitChar (n % 10)]

/-- `datetime.now()`, to the second. -/
structure LocalTime where
  year : ℕ
  month : ℕ
  day : ℕ
  hour : ℕ
  minute : ℕ
  second : ℕ
  year_mem : 1000 ≤ year ∧ year ≤ 9999
  month_mem : 1 ≤ month ∧ month ≤ 12
  day_mem : 1 ≤ day ∧ day ≤ 31
  hour_lt : hour < 24
  minute_lt : minute < 60
  second_lt : second < 60

/-- `randint(1000, 9999)`. -/
structure RandomNumber where
  val : ℕ
  val_mem : 1000 ≤ val ∧ val ≤ 9999

/-- `strftime("%Y%m%dT%H%M%S")`. -/
def LocalTime.timestamp (t : LocalTime) : List Char :=
  digits 4 t.year ++ digits 2 t.month ++ digits 2 t.day ++ 'T' :: (digits 2 t.hour ++
    digits 2 t.minute ++ digits 2 t.second)

def createDeliveryId (now : LocalTime) (randomNumber : RandomNumber) (productId : String) :
    String :=
  String.ofList now.timestamp ++ "-" ++ productId ++ "-" ++
    String.ofList (digits 4 randomNumber.val)

lemma digits_ne_slash {w n : ℕ} : '/' ∉ digits w n := by
  induction w generalizing n with
  | zero => simp [digits]
  | succ w ih =>
      have hd : ∀ d < 10, '/' ≠ Nat.digitChar d := by decide
      simp [digits, ih, hd (n % 10) (Nat.mod_lt _ (by decide))]

lemma timestamp_ne_slash (t : LocalTime) : '/' ∉ t.timestamp := by
  simp [LocalTime.timestamp, digits_ne_slash]

/-- The id is one piece of a key when the product id is. -/
lemma createDeliveryId_ne_slash {now : LocalTime} {r : RandomNumber} {productId : String}
    (h : '/' ∉ productId.toList) : '/' ∉ (createDeliveryId now r productId).toList := by
  simp [createDeliveryId, String.toList_append, timestamp_ne_slash, digits_ne_slash, h]

lemma dash_mem_createDeliveryId {now : LocalTime} {r : RandomNumber} {productId : String} :
    '-' ∈ (createDeliveryId now r productId).toList := by
  simp [createDeliveryId, String.toList_append]

lemma createDeliveryId_ne {now : LocalTime} {r : RandomNumber} {productId s : String}
    (h : '-' ∉ s.toList) : createDeliveryId now r productId ≠ s := fun e =>
  h (e ▸ dash_mem_createDeliveryId)

lemma isComponent_createDeliveryId {now : LocalTime} {r : RandomNumber} {productId : String}
    (h : IsComponent productId) : IsComponent (createDeliveryId now r productId) := by
  refine ⟨?_, createDeliveryId_ne_slash h.2⟩
  have hne : ∀ w : List Char, '-' ∈ w → keep w = true := fun w hw => by
    simp only [keep, Bool.and_eq_true, decide_eq_true_eq]
    exact ⟨List.ne_nil_of_mem hw, by rintro rfl; simp at hw⟩
  exact hne _ dash_mem_createDeliveryId

end MarineDelivery.DeliveryId
