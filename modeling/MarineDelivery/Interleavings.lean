import Mathlib.Data.List.Basic
import Mathlib.Logic.Function.Basic

/-!
Traces of parties that run side by side.

An interleaving of traces keeps each of them in its order. What only one party can do is seen
in the interleaving as in the trace of that party alone; so a cell of a store that only one
party writes ends as if that party had been alone.
-/

namespace MarineDelivery.Interleavings

variable {ι α : Type} [DecidableEq ι] {traces : ι → List α} {merged : List α} {i : ι}

/-- Every entry of the list belongs to a party, and the entries of each party are its trace. -/
def Interleaves (traces : ι → List α) (merged : List α) : Prop :=
  ∃ tagged : List (ι × α), tagged.map Prod.snd = merged ∧
    ∀ i, ((tagged.filter fun x => x.1 = i).map Prod.snd) = traces i

lemma interleaves_append (l l' : List α) :
    Interleaves (fun second : Bool => if second then l' else l) (l ++ l') := by
  refine ⟨l.map (false, ·) ++ l'.map (true, ·), by simp [Function.comp_def], fun second => ?_⟩
  rw [List.filter_append, List.filter_map, List.filter_map]
  cases second <;> simp [Function.comp_def]

lemma Interleaves.mem (h : Interleaves traces merged) {a : α} (ha : a ∈ traces i) :
    a ∈ merged := by
  obtain ⟨tagged, rfl, htraces⟩ := h
  rw [← htraces] at ha
  obtain ⟨x, hx, rfl⟩ := List.mem_map.mp ha
  exact List.mem_map_of_mem (List.mem_filter.mp hx).1

/-- The beginning of an interleaving interleaves what the parties have done by then, and the
next entry is the next of one of them. -/
lemma Interleaves.split {pre rest : List α} (h : Interleaves traces (pre ++ rest)) :
    ∃ before : ι → List α, Interleaves before pre ∧ (∀ j, before j <+: traces j) ∧
      ∀ a post, rest = a :: post → ∃ i after, traces i = before i ++ a :: after := by
  obtain ⟨tagged, htagged, htraces⟩ := h
  obtain ⟨l, l', rfl, hl, hrest⟩ := List.map_eq_append_iff.mp htagged
  have hsplit : ∀ j, traces j = ((l.filter fun x => x.1 = j).map Prod.snd) ++
      ((l'.filter fun x => x.1 = j).map Prod.snd) := by
    intro j
    rw [← htraces, List.filter_append, List.map_append]
  refine ⟨fun j => (l.filter fun x => x.1 = j).map Prod.snd, ⟨l, hl, fun _ => rfl⟩, fun j => ?_,
    fun a post hpost => ?_⟩
  · rw [hsplit]
    exact List.prefix_append _ _
  · subst hpost
    obtain ⟨x, l'', rfl, rfl, -⟩ := List.map_eq_cons_iff.mp hrest
    refine ⟨x.1, (l''.filter fun y => y.1 = x.1).map Prod.snd, ?_⟩
    have hown : ((x :: l'').filter fun y => y.1 = x.1) = x :: l''.filter fun y => y.1 = x.1 :=
      List.filter_cons_of_pos (decide_eq_true rfl)
    rw [hsplit, hown, List.map_cons]

/-- **What only one party does** is seen as in its own trace. -/
theorem Interleaves.filter_eq (h : Interleaves traces merged) {p : α → Bool}
    (hp : ∀ j ≠ i, ∀ a ∈ traces j, p a = false) :
    merged.filter p = (traces i).filter p := by
  obtain ⟨tagged, rfl, htraces⟩ := h
  have hown : ∀ x ∈ tagged, p x.2 = true → x.1 = i := by
    intro x hx hpx
    by_contra hne
    have hmem : x.2 ∈ traces x.1 := by
      rw [← htraces]
      exact List.mem_map_of_mem (List.mem_filter.mpr ⟨hx, decide_eq_true rfl⟩)
    exact Bool.false_ne_true ((hp _ hne _ hmem).symm.trans hpx)
  rw [← htraces, List.filter_map, List.filter_map, List.filter_filter]
  refine congrArg (List.map Prod.snd) (List.filter_congr fun x hx => ?_)
  by_cases hpx : p x.2 = true
  · simp [hpx, hown x hx hpx]
  · simp [hpx]

/-! ### Stores -/

variable {κ β : Type} {write : (κ → β) → α → κ → β} {k : κ}

lemma foldl_apply_filter {p : α → Bool} (hlocal : ∀ f g a, f k = g k → write f a k = write g a k)
    (hframe : ∀ f a, p a = false → write f a k = f k) (l : List α) {f g : κ → β}
    (hfg : f k = g k) : l.foldl write f k = (l.filter p).foldl write g k := by
  induction l generalizing f g with
  | nil => exact hfg
  | cons a l ih =>
      cases ha : p a with
      | true =>
          rw [List.filter_cons_of_pos ha]
          exact ih (hlocal f g a hfg)
      | false =>
          rw [List.filter_cons_of_neg (Bool.eq_false_iff.mp ha)]
          exact ih ((hframe f a ha).trans hfg)

/-- **A cell that only one party writes** ends as if that party had been alone. -/
theorem Interleaves.foldl_eq (h : Interleaves traces merged) {p : α → Bool}
    (hlocal : ∀ f g a, f k = g k → write f a k = write g a k)
    (hframe : ∀ f a, p a = false → write f a k = f k)
    (hp : ∀ j ≠ i, ∀ a ∈ traces j, p a = false) (f : κ → β) :
    merged.foldl write f k = (traces i).foldl write f k := by
  calc merged.foldl write f k = (merged.filter p).foldl write f k :=
        foldl_apply_filter hlocal hframe merged rfl
    _ = ((traces i).filter p).foldl write f k := by rw [h.filter_eq hp]
    _ = (traces i).foldl write f k := (foldl_apply_filter hlocal hframe (traces i) rfl).symm

end MarineDelivery.Interleavings
