import Mathlib.Data.Int.Notation
import Mathlib.Data.Nat.Notation

/-!
Values that a parser hands over, and models that are validated against them.

A value is what a JSON or a YAML document becomes: scalars, collections, dictionaries. A model
reads its fields by name; a field is required or has a default, other keys do not matter, and a
union takes the member that reads more of the fields. Errors are a parameter.
-/

namespace MarineDelivery.Models

inductive Value
  | null
  | bool (b : Bool)
  | int (n : ℤ)
  | float (text : String)
  | str (s : String)
  | bytes (data : ByteArray)
  | date (text : String)
  | list (items : List Value)
  | set (items : List Value)
  | tuple (items : List Value)
  | dict (items : List (Value × Value))

namespace Value

def isStr (name : String) : Value → Bool
  | str s => s = name
  | _ => false

/-- The items of a dictionary. -/
def items? : Value → Option (List (Value × Value))
  | dict items => some items
  | _ => none

/-- The text of a value that can be taken for a string. -/
def text? : Value → Option String
  | str s => some s
  | bytes data => String.fromUTF8? data
  | _ => none

/-- The elements of a value that can be taken for a list. -/
def elements? : Value → Option (List Value)
  | list items => some items
  | set items => some items
  | tuple items => some items
  | _ => none

end Value

/-- The value under a name; the keys of a dictionary are distinct. -/
def get? (name : String) (items : List (Value × Value)) : Option Value :=
  (items.find? fun item => item.1.isStr name).map Prod.snd

variable {ε α β : Type}

/-! ### Validation -/

def asText (invalid : ε) (v : Value) : Except ε String :=
  match v.text? with
  | some s => .ok s
  | none => .error invalid

def asList (invalid : ε) (validate : Value → Except ε α) (v : Value) : Except ε (List α) :=
  match v.elements? with
  | some items => items.mapM validate
  | none => .error invalid

/-- `T | None`. -/
def nullable (validate : Value → Except ε α) : Value → Except ε (Option α)
  | .null => .ok none
  | v => some <$> validate v

def asItems (invalid : ε) (v : Value) : Except ε (List (Value × Value)) :=
  match v.items? with
  | some items => .ok items
  | none => .error invalid

/-- A field without a default. -/
def required (missing : ε) (validate : Value → Except ε α) : Option Value → Except ε α
  | some v => validate v
  | none => .error missing

/-- A field with a default. -/
def defaulted (default : α) (validate : Value → Except ε α) : Option Value → Except ε α
  | some v => validate v
  | none => .ok default

/-- A union without a tag: the member that sets more fields, and then the first. -/
def preferred (left right : Except ε (α × ℕ)) : Except ε α :=
  match left, right with
  | .ok (a, m), .ok (b, n) => .ok (if m < n then b else a)
  | .ok (a, _), .error _ => .ok a
  | .error _, .ok (b, _) => .ok b
  | .error e, .error _ => .error e

/-- The dump of a `T | None`. -/
def dumpNullable (dump : α → Value) : Option α → Value
  | none => .null
  | some a => dump a

/-! ### What has been validated -/

lemma asItems_ok_iff {invalid : ε} {v : Value} {items : List (Value × Value)} :
    asItems invalid v = .ok items ↔ v.items? = some items := by
  unfold asItems
  cases v.items? <;> simp

lemma asText_ok_iff {invalid : ε} {v : Value} {s : String} :
    asText invalid v = .ok s ↔ v.text? = some s := by
  unfold asText
  cases v.text? <;> simp

lemma asList_ok_iff {invalid : ε} {validate : Value → Except ε α} {v : Value} {l : List α} :
    asList invalid validate v = .ok l ↔
      ∃ items, v.elements? = some items ∧ items.mapM validate = .ok l := by
  unfold asList
  cases v.elements? <;> simp

lemma required_ok_iff {missing : ε} {validate : Value → Except ε α} {found : Option Value}
    {a : α} : required missing validate found = .ok a ↔ ∃ v ∈ found, validate v = .ok a := by
  cases found <;> simp [required]

lemma items?_eq_some_iff {v : Value} {items : List (Value × Value)} :
    v.items? = some items ↔ v = .dict items := by
  cases v <;> simp [Value.items?]

lemma isStr_iff {name : String} {v : Value} : v.isStr name = true ↔ v = .str name := by
  cases v <;> simp [Value.isStr]

lemma nullable_text_isOk_iff {invalid : ε} {v : Value} :
    (∃ a, nullable (asText invalid) v = .ok a) ↔ v = .null ∨ v.text?.isSome = true := by
  have hother : ∀ w : Value, w ≠ .null → ((∃ a, nullable (asText invalid) w = .ok a) ↔
      w.text?.isSome = true) := by
    intro w hw
    have hmap : nullable (asText invalid) w = some <$> asText invalid w := by
      cases w <;> first | rfl | exact absurd rfl hw
    rw [hmap, asText]
    cases w.text? with
    | none => simp [Functor.map, Except.map]
    | some s => simp [Functor.map, Except.map]
  by_cases hv : v = .null
  · subst hv
    simp [nullable]
  · rw [hother v hv]
    simp [hv]

/-- A value is the dump of the text it is taken for, unless it is of bytes. -/
lemma eq_dumpNullable_of_ok {invalid : ε} {v : Value} {a : Option String}
    (hbytes : ∀ data, v ≠ .bytes data) (h : nullable (asText invalid) v = .ok a) :
    v = dumpNullable .str a := by
  cases v with
  | null => cases h; rfl
  | str s => cases h; rfl
  | bytes data => exact absurd rfl (hbytes data)
  | bool | int | float | date | list | set | tuple | dict => cases h

/-- A union gives what one of its members gives. -/
lemma preferred_ok {left right : Except ε (α × ℕ)} {a : α}
    (h : preferred left right = .ok a) : (∃ n, left = .ok (a, n)) ∨ ∃ n, right = .ok (a, n) := by
  rcases left with e | ⟨b, m⟩ <;> rcases right with e' | ⟨c, n⟩
  · cases h
  · cases h
    exact .inr ⟨n, rfl⟩
  · cases h
    exact .inl ⟨m, rfl⟩
  · rw [preferred] at h
    by_cases hmore : m < n
    · rw [if_pos hmore] at h
      cases h
      exact .inr ⟨n, rfl⟩
    · rw [if_neg hmore] at h
      cases h
      exact .inl ⟨m, rfl⟩

lemma preferred_isOk_iff {left right : Except ε (α × ℕ)} :
    (∃ a, preferred left right = .ok a) ↔ (∃ x, left = .ok x) ∨ ∃ x, right = .ok x := by
  rcases left with e | ⟨b, m⟩ <;> rcases right with e' | ⟨c, n⟩ <;> simp [preferred]

/-! ### Round trips -/

/-- What is dumped is validated to itself. -/
def RoundTrips (dump : α → Value) (validate : Value → Except ε α) (a : α) : Prop :=
  validate (dump a) = .ok a

lemma roundTrips_text (invalid : ε) (s : String) : RoundTrips Value.str (asText invalid) s := rfl

/-- `None` is not mistaken for anything that is dumped as something else. -/
lemma roundTrips_nullable {dump : α → Value} {validate : Value → Except ε α} {a : Option α}
    (h : ∀ x ∈ a, dump x ≠ .null ∧ RoundTrips dump validate x) :
    RoundTrips (dumpNullable dump) (nullable validate) a := by
  cases a with
  | none => rfl
  | some x =>
      obtain ⟨hne, hx⟩ := h x rfl
      unfold RoundTrips at hx ⊢
      rw [dumpNullable, nullable]
      · rw [hx]
        rfl
      · exact hne

lemma roundTrips_nullable_text (invalid : ε) (a : Option String) :
    RoundTrips (dumpNullable Value.str) (nullable (asText invalid)) a :=
  roundTrips_nullable fun s _ => ⟨by simp, roundTrips_text invalid s⟩

def dumpList (dump : α → Value) (l : List α) : Value := .list (l.map dump)

lemma roundTrips_list {dump : α → Value} {validate : Value → Except ε α} {l : List α}
    (invalid : ε) (h : ∀ a ∈ l, RoundTrips dump validate a) :
    RoundTrips (dumpList dump) (asList invalid validate) l := by
  show (l.map dump).mapM validate = .ok l
  induction l with
  | nil => rfl
  | cons a l ih =>
      obtain ⟨ha, hl⟩ := List.forall_mem_cons.mp h
      unfold RoundTrips at ha
      rw [List.map_cons, List.mapM_cons, ha, ih hl]
      rfl

end MarineDelivery.Models
