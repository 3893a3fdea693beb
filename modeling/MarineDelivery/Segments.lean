import Mathlib.Data.List.Basic

/-!
Words cut into segments at a separator.

Only the segments a predicate keeps are counted: with the separator `/` and the segments
that are neither empty nor a lone dot, this is how a path is read. Everything about
`segments` follows from one equation, `segments_append`: a separator cuts a word in two.
-/

namespace MarineDelivery.Segments

variable {α : Type*} [DecidableEq α] (sep : α) (keep : List α → Bool)

/-- The kept segments of a word. -/
def segments (w : List α) : List (List α) := (w.splitOn sep).filter keep

/-- Segments written one after the other, a separator between them. -/
def join (cs : List (List α)) : List α := [sep].intercalate cs

lemma segments_append (u v : List α) :
    segments sep keep (u ++ sep :: v) = segments sep keep u ++ segments sep keep v := by
  rw [segments, List.splitOn_append_cons_self, List.filter_append, segments, segments]

lemma segments_cons_sep (hk : keep [] = false) (v : List α) :
    segments sep keep (sep :: v) = segments sep keep v := by
  have h := segments_append sep keep [] v
  simpa [segments, hk] using h

lemma segments_of_notMem {w : List α} (h : sep ∉ w) :
    segments sep keep w = if keep w then [w] else [] := by
  rw [segments, List.splitOn_eq_singleton h, List.filter_singleton]
  simp

lemma notMem_of_mem_splitOn {w c : List α} (h : c ∈ w.splitOn sep) : sep ∉ c := by
  induction w generalizing c with
  | nil =>
      have : c = [] := by simpa using h
      simp [this]
  | cons x xs ih =>
      rw [List.splitOn_cons_eq_if_modifyHead] at h
      split_ifs at h with hx
      · rcases List.mem_cons.mp h with rfl | h
        · simp
        · exact ih h
      · obtain ⟨d, ds, hd⟩ := List.exists_cons_of_ne_nil (List.splitOn_ne_nil sep xs)
        rw [hd, List.modifyHead_cons] at h
        rcases List.mem_cons.mp h with rfl | h
        · have hd' : sep ∉ d := ih (hd ▸ List.mem_cons_self)
          have hne : sep ≠ x := fun e => hx (by simp [e])
          simp [hne, hd']
        · exact ih (hd ▸ List.mem_cons_of_mem _ h)

lemma mem_segments {w c : List α} (h : c ∈ segments sep keep w) : keep c = true ∧ sep ∉ c := by
  obtain ⟨hc, hk⟩ := List.mem_filter.mp h
  exact ⟨hk, notMem_of_mem_splitOn sep hc⟩

/-- Joined segments are read back, none lost and none merged. -/
theorem segments_join (hk : keep [] = false) {cs : List (List α)}
    (h : ∀ c ∈ cs, keep c = true ∧ sep ∉ c) : segments sep keep (join sep cs) = cs := by
  rcases cs with _ | ⟨c, ds⟩
  · simp [join, segments, hk]
  · rw [segments, join, List.splitOn_intercalate sep (fun l hl => (h l hl).2) (by simp)]
    exact List.filter_eq_self.mpr fun l hl => (h l hl).1

omit [DecidableEq α] in
lemma join_cons_cons (c d : List α) (ds : List (List α)) :
    join sep (c :: d :: ds) = c ++ sep :: join sep (d :: ds) := by
  simp [join, List.intercalate_cons_cons]

omit [DecidableEq α] in
lemma join_concat {cs : List (List α)} (hne : cs ≠ []) (c : List α) :
    join sep (cs ++ [c]) = join sep cs ++ sep :: c := by
  induction cs with
  | nil => exact absurd rfl hne
  | cons d ds ih =>
      rcases ds with _ | ⟨e, es⟩
      · simp [join, List.intercalate_cons_cons]
      · have := ih (by simp)
        simp only [List.cons_append] at this ⊢
        rw [join_cons_cons, this, join_cons_cons, List.append_assoc, List.cons_append]

omit [DecidableEq α] in
/-- A piece that is not the last one is followed by a separator. -/
lemma infix_join_of_mem_dropLast {c : List α} {cs : List (List α)} (h : c ∈ cs.dropLast) :
    c ++ [sep] <:+: join sep cs := by
  induction cs with
  | nil => cases h
  | cons d ds ih =>
      rcases ds with _ | ⟨e, es⟩
      · cases h
      · rw [join_cons_cons]
        rcases List.mem_cons.mp h with rfl | h
        · exact ⟨[], join sep (e :: es), by simp⟩
        · have hsuffix : join sep (e :: es) <:+ d ++ sep :: join sep (e :: es) :=
            ⟨d ++ [sep], by simp⟩
          exact (ih h).trans hsuffix.isInfix

/-- Dropping the pieces before the second separator by position. -/
lemma join_drop_splitOn {a b : List α} (ha : sep ∉ a) (hb : sep ∉ b) (w : List α) :
    join sep (((a ++ sep :: (b ++ sep :: w)).splitOn sep).drop 2) = w := by
  rw [List.splitOn_append_cons_self_of_not_mem ha, List.splitOn_append_cons_self_of_not_mem hb]
  simp [join]

/-! ### What follows the first occurrence -/

/-- What follows the first occurrence of `a`, if there is one. -/
def afterFirst (a : α) (l : List α) : Option (List α) :=
  (l.idxOf? a).map fun i => l.drop (i + 1)

lemma afterFirst_eq_none_iff {a : α} {l : List α} : afterFirst a l = none ↔ a ∉ l := by
  simp [afterFirst]

lemma afterFirst_append {a : α} {l : List α} (h : a ∉ l) (r : List α) :
    afterFirst a (l ++ a :: r) = some r := by
  induction l with
  | nil => simp [afterFirst, List.idxOf?_cons]
  | cons b l ih =>
      obtain ⟨hb, hl⟩ : a ≠ b ∧ a ∉ l := by simpa using h
      have := ih hl
      simp only [afterFirst, Option.map_eq_some_iff] at this ⊢
      obtain ⟨i, hi, hd⟩ := this
      exact ⟨i + 1, by simp [List.idxOf?_cons, Ne.symm hb, hi], by simpa using hd⟩

lemma afterFirst_of_mem {a : α} {l : List α} (h : a ∈ l) :
    ∃ u v, l = u ++ a :: v ∧ a ∉ u ∧ afterFirst a l = some v := by
  obtain ⟨u, v, hl, hu⟩ := List.eq_append_cons_of_mem h
  exact ⟨u, v, hl, hu, by rw [hl]; exact afterFirst_append hu v⟩

lemma afterFirst_eq_some {a : α} {l r : List α} (h : afterFirst a l = some r) :
    ∃ u, l = u ++ a :: r ∧ a ∉ u := by
  have hm : a ∈ l := by
    by_contra hc
    rw [afterFirst_eq_none_iff.mpr hc] at h
    exact absurd h (by simp)
  obtain ⟨u, v, hl, hu, hv⟩ := afterFirst_of_mem hm
  rw [hv, Option.some.injEq] at h
  exact ⟨u, h ▸ hl, hu⟩

/-- Two anchors that leave the same rest of one list are the same anchor. -/
lemma afterFirst_inj {a b : α} {l r : List α} (ha : afterFirst a l = some r)
    (hb : afterFirst b l = some r) : a = b := by
  obtain ⟨u, hu, -⟩ := afterFirst_eq_some ha
  obtain ⟨v, hv, -⟩ := afterFirst_eq_some hb
  have he : (u ++ [a]) ++ r = (v ++ [b]) ++ r := by simpa using hu.symm.trans hv
  have := List.append_cancel_right he
  simpa using (List.append_inj' this rfl).2

end MarineDelivery.Segments
