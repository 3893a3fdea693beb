import Mathlib.Data.List.Dedup
import Mathlib.Data.List.Induction

/-!
Dictionaries that remember the order in which their keys first came.

Setting a key that is there replaces its value and leaves its place; a new key goes to the
end. `ofList` sets the pairs of a list one after the other, so that the last value written
for a key is the one that is kept.
-/

namespace MarineDelivery.OrderedDict

variable {α β : Type*} [DecidableEq α]

/-- The pairs after `k` was set to `v`. -/
def upsert (k : α) (v : β) : List (α × β) → List (α × β)
  | [] => [(k, v)]
  | (a, b) :: r => if a = k then (a, v) :: r else (a, b) :: upsert k v r

lemma mem_keys_upsert {k a : α} {v : β} {l : List (α × β)} :
    a ∈ (upsert k v l).map Prod.fst ↔ a = k ∨ a ∈ l.map Prod.fst := by
  induction l with
  | nil => simp [upsert]
  | cons p r ih =>
      obtain ⟨b, w⟩ := p
      by_cases h : b = k
      · subst h; simp [upsert]
      · simp only [upsert, h, if_false, List.map_cons, List.mem_cons, ih]
        tauto

lemma nodup_upsert {k : α} {v : β} {l : List (α × β)} (h : (l.map Prod.fst).Nodup) :
    ((upsert k v l).map Prod.fst).Nodup := by
  induction l with
  | nil => simp [upsert]
  | cons p r ih =>
      obtain ⟨b, w⟩ := p
      obtain ⟨hb, hr⟩ := List.nodup_cons.mp h
      by_cases hk : b = k
      · simpa [upsert, hk] using h
      · simp only [upsert, hk, if_false, List.map_cons, List.nodup_cons]
        refine ⟨fun hm => ?_, ih hr⟩
        rcases mem_keys_upsert.mp hm with e | hm
        · exact hk e
        · exact hb hm

lemma upsert_of_notMem {k : α} {v : β} {l : List (α × β)} (h : k ∉ l.map Prod.fst) :
    upsert k v l = l ++ [(k, v)] := by
  induction l with
  | nil => rfl
  | cons p r ih =>
      obtain ⟨b, w⟩ := p
      obtain ⟨hb, hr⟩ : k ≠ b ∧ k ∉ r.map Prod.fst := by simpa using h
      simp [upsert, Ne.symm hb, ih hr]

/-- A dictionary: pairs in order, no key twice. -/
structure Dict (α β : Type*) where
  items : List (α × β)
  nodup : (items.map Prod.fst).Nodup

namespace Dict

def empty : Dict α β := ⟨[], List.nodup_nil⟩

def keys (d : Dict α β) : List α := d.items.map Prod.fst

def set (d : Dict α β) (k : α) (v : β) : Dict α β :=
  ⟨upsert k v d.items, nodup_upsert d.nodup⟩

def get? (d : Dict α β) (k : α) : Option β :=
  (d.items.find? fun p => p.1 = k).map Prod.snd

def ofList (l : List (α × β)) : Dict α β := l.foldl (fun d p => d.set p.1 p.2) empty

omit [DecidableEq α] in
@[ext] lemma ext {d e : Dict α β} (h : d.items = e.items) : d = e := by
  cases d; cases e; simp_all

omit [DecidableEq α] in
lemma nodup_keys (d : Dict α β) : d.keys.Nodup := d.nodup

omit [DecidableEq α] in
lemma nodup_items (d : Dict α β) : d.items.Nodup := d.nodup.of_map _

lemma mem_items_iff {d : Dict α β} {k : α} {v : β} :
    (k, v) ∈ d.items ↔ d.get? k = some v := by
  obtain ⟨l, hl⟩ := d
  simp only [get?]
  induction l with
  | nil => simp
  | cons p r ih =>
      obtain ⟨a, b⟩ := p
      obtain ⟨ha, hr⟩ := List.nodup_cons.mp hl
      by_cases h : a = k
      · subst h
        have hn : (a, v) ∉ r := fun hm => ha (List.mem_map.mpr ⟨_, hm, rfl⟩)
        simp [hn, eq_comm]
      · simpa [h, Ne.symm h] using ih hr

lemma get?_eq_none_iff {d : Dict α β} {k : α} : d.get? k = none ↔ k ∉ d.keys := by
  simp only [get?, keys, Option.map_eq_none_iff, List.find?_eq_none, decide_eq_true_eq,
    List.mem_map, not_exists, not_and]

lemma mem_keys_iff {d : Dict α β} {k : α} : k ∈ d.keys ↔ ∃ v, d.get? k = some v := by
  rw [← Option.isSome_iff_exists, Option.isSome_iff_ne_none, ne_eq, get?_eq_none_iff, not_not]

omit [DecidableEq α] in
/-- A key has one value. -/
lemma items_inj {d : Dict α β} {k : α} {v w : β} (hv : (k, v) ∈ d.items)
    (hw : (k, w) ∈ d.items) : v = w := by
  classical
  rw [mem_items_iff] at hv hw
  exact Option.some.inj (hv.symm.trans hw)

lemma mem_keys_set {d : Dict α β} {k a : α} {v : β} :
    a ∈ (d.set k v).keys ↔ a = k ∨ a ∈ d.keys := mem_keys_upsert

lemma get?_set {d : Dict α β} {k a : α} {v : β} :
    (d.set k v).get? a = if a = k then some v else d.get? a := by
  obtain ⟨l, hl⟩ := d
  simp only [get?, set]
  clear hl
  induction l with
  | nil =>
      by_cases h : a = k
      · simp [upsert, h]
      · simp [upsert, h, Ne.symm h]
  | cons p r ih =>
      obtain ⟨b, w⟩ := p
      by_cases hb : b = k
      · subst hb
        by_cases ha : a = b
        · simp [upsert, ha]
        · simp [upsert, ha, Ne.symm ha]
      · by_cases hba : b = a
        · subst hba; simp [upsert, hb]
        · simpa [upsert, hb, hba] using ih

lemma ofList_concat (l : List (α × β)) (k : α) (v : β) :
    ofList (l ++ [(k, v)]) = (ofList l).set k v := by
  simp [ofList, List.foldl_append]

lemma mem_keys_ofList {l : List (α × β)} {k : α} :
    k ∈ (ofList l).keys ↔ k ∈ l.map Prod.fst := by
  induction l using List.reverseRecOn with
  | nil => simp [ofList, empty, keys]
  | append_singleton l p ih =>
      obtain ⟨a, b⟩ := p
      rw [ofList_concat, mem_keys_set, ih]
      simp [or_comm]

/-- **The last value wins.** -/
lemma get?_ofList (l : List (α × β)) (k : α) :
    (ofList l).get? k = (l.reverse.find? fun p => p.1 = k).map Prod.snd := by
  induction l using List.reverseRecOn with
  | nil => rfl
  | append_singleton l p ih =>
      obtain ⟨a, b⟩ := p
      rw [ofList_concat, get?_set, ih, List.reverse_append]
      by_cases h : k = a
      · simp [h]
      · simp [h, Ne.symm h]

lemma mem_of_mem_ofList {l : List (α × β)} {p : α × β} (h : p ∈ (ofList l).items) : p ∈ l := by
  obtain ⟨k, v⟩ := p
  rw [mem_items_iff, get?_ofList, Option.map_eq_some_iff] at h
  obtain ⟨⟨a, b⟩, hf, rfl⟩ := h
  have ha : a = k := by simpa using List.find?_some hf
  exact ha ▸ List.mem_reverse.mp (List.mem_of_find?_eq_some hf)

/-- Without a repeated key, the pairs are kept as they are. -/
lemma items_ofList {l : List (α × β)} (h : (l.map Prod.fst).Nodup) : (ofList l).items = l := by
  induction l using List.reverseRecOn with
  | nil => rfl
  | append_singleton l p ih =>
      obtain ⟨a, b⟩ := p
      rw [List.map_append, List.nodup_append] at h
      obtain ⟨hl, -, hd⟩ := h
      have ha : a ∉ (ofList l).keys := fun hm =>
        hd a (mem_keys_ofList.mp hm) a (by simp) rfl
      rw [ofList_concat]
      show upsert a b (ofList l).items = _
      rw [upsert_of_notMem ha, ih hl]

/-- When every key is written with one value, the value found is that one. -/
lemma get?_ofList_of_mem {l : List (α × β)} {k : α} {v : β} (hm : (k, v) ∈ l)
    (hu : ∀ w, (k, w) ∈ l → w = v) : (ofList l).get? k = some v := by
  obtain ⟨w, hw⟩ := mem_keys_iff.mp (mem_keys_ofList.mpr (List.mem_map.mpr ⟨_, hm, rfl⟩))
  rw [hw, hu w (mem_of_mem_ofList (mem_items_iff.mpr hw))]

end Dict

end MarineDelivery.OrderedDict
