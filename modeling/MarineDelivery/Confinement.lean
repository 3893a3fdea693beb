import MarineDelivery.Anchoring

/-!
Where a key suffix leads.

A suffix the validator lets through is resolved piece by piece from the directory of the
dataset. Two dots can only be its last piece, so it stays in the directory and ends below it
exactly when it has names enough for them.
-/

namespace MarineDelivery.Confinement

open MarineDelivery.PathLib MarineDelivery.Common MarineDelivery.Segments
open MarineDelivery.Anchoring

/-- One piece of a suffix, in a directory given by its names from the top. -/
def resolve (dir : List String) (piece : String) : List String :=
  if piece = "" ∨ piece = "." then dir
  else if piece = ".." then dir.dropLast
  else dir ++ [piece]

/-- The suffix is resolved inside the directory, and ends strictly below it. -/
def Confined (root : List String) (s : String) : Prop :=
  (∀ l, l <+: pieces s → root <+: l.foldl resolve root) ∧
  (pieces s).foldl resolve root ≠ root

def isName (piece : String) : Bool := piece ∉ ["", ".", ".."]

/-- The suffix has a name more than it has to leave again. -/
def Descends (s : String) : Prop :=
  (if (pieces s).getLast? = some ".." then 1 else 0) < ((pieces s).filter isName).length

instance (s : String) : Decidable (Descends s) := inferInstanceAs (Decidable (_ < _))

/-! ### What the validator lets through -/

lemma pieces_ne_nil (s : String) : pieces s ≠ [] := by
  simp [pieces, List.splitOn_ne_nil]

lemma dotdot_notMem_dropLast {s : String} (h : raiseOnWrongKeySuffix s = .ok ()) :
    ".." ∉ (pieces s).dropLast := by
  intro hmem
  obtain ⟨-, hpatterns⟩ := raiseOnWrongKeySuffix_ok_iff.mp h
  have hno := hpatterns "../" (by decide)
  rw [pieces, ← List.map_dropLast] at hmem
  obtain ⟨w, hw, hdots⟩ := List.mem_map.mp hmem
  have hchars : w = "..".toList := by
    rw [← hdots, String.toList_ofList]
  have hinfix := infix_join_of_mem_dropLast '/' hw
  rw [hchars, join, List.intercalate_splitOn] at hinfix
  exact absurd hinfix (of_decide_eq_false hno)

/-! ### Resolving -/

lemma foldl_resolve {root l : List String} (h : ".." ∉ l) :
    l.foldl resolve root = root ++ l.filter isName := by
  induction l using List.reverseRecOn with
  | nil => simp
  | append_singleton l c ih =>
      have hl : ".." ∉ l := fun hc => h (List.mem_append_left _ hc)
      have hc : c ≠ ".." := fun e => h (by simp [e])
      rw [List.foldl_append, ih hl, List.foldl_cons, List.foldl_nil, List.filter_append, resolve]
      by_cases hstay : c = "" ∨ c = "."
      · have hname : isName c = false := by
          rcases hstay with rfl | rfl <;> rfl
        rw [if_pos hstay, List.filter_singleton, hname]
        simp
      · have hname : isName c = true := by
          obtain ⟨hempty, hdot⟩ := not_or.mp hstay
          simp [isName, hempty, hdot, hc]
        rw [if_neg hstay, if_neg hc, List.filter_singleton, hname]
        simp

lemma confined_iff_of_notMem {root : List String} {s : String} (h : ".." ∉ pieces s) :
    Confined root s ↔ Descends s := by
  have hlast : (pieces s).getLast? ≠ some ".." := fun e => h (List.mem_of_getLast? e)
  have hstay : ∀ l, l <+: pieces s → root <+: l.foldl resolve root := by
    intro l hl
    rw [foldl_resolve fun hc => h (hl.subset hc)]
    exact List.prefix_append _ _
  rw [Confined, Descends, if_neg hlast, foldl_resolve h]
  constructor
  · rintro ⟨-, hne⟩
    have hnames : (pieces s).filter isName ≠ [] := by
      intro hnil
      exact hne (by rw [hnil, List.append_nil])
    exact List.length_pos_iff.mpr hnames
  · intro hlen
    refine ⟨hstay, fun he => ?_⟩
    have hnil : (pieces s).filter isName = [] := by simpa using he
    rw [hnil] at hlen
    exact absurd hlen (by decide)

lemma confined_iff_of_last {root init : List String} {s : String} (hroot : root ≠ [])
    (hs : pieces s = init ++ [".."]) (h : ".." ∉ init) : Confined root s ↔ Descends s := by
  have hlast : (pieces s).getLast? = some ".." := by rw [hs]; simp
  have hnames : (pieces s).filter isName = init.filter isName := by
    rw [hs, List.filter_append, List.filter_singleton]
    simp [isName]
  have hend : (pieces s).foldl resolve root = (root ++ init.filter isName).dropLast := by
    rw [hs, List.foldl_append, foldl_resolve h]
    rfl
  rw [Confined, Descends, if_pos hlast, hend, hnames]
  constructor
  · rintro ⟨hstay, hne⟩
    -- one name is needed to come back to the directory, and another to end below it
    have hlen := (hstay _ (List.prefix_refl _)).length_le
    rw [hend, List.length_dropLast, List.length_append] at hlen
    have hpos := List.length_pos_iff.mpr hroot
    by_contra hshort
    obtain ⟨c, hc⟩ : ∃ c, init.filter isName = [c] :=
      List.length_eq_one_iff.mp (by omega)
    rw [hc, List.dropLast_concat] at hne
    exact hne rfl
  · intro hlen
    have hne : init.filter isName ≠ [] := List.length_pos_iff.mp (by omega)
    have hdrop : (root ++ init.filter isName).dropLast =
        root ++ (init.filter isName).dropLast := List.dropLast_append_of_ne_nil hne
    refine ⟨fun l hl => ?_, fun he => ?_⟩
    · rw [hs] at hl
      rcases List.prefix_concat_iff.mp hl with rfl | hl
      · rw [← hs, hend, hdrop]
        exact List.prefix_append _ _
      · rw [foldl_resolve fun hc => h (hl.subset hc)]
        exact List.prefix_append _ _
    · rw [hdrop] at he
      have hnil : (init.filter isName).dropLast = [] := by simpa using he
      have hlen' := congrArg List.length hnil
      rw [List.length_dropLast, List.length_nil] at hlen'
      omega

/-- **Which suffixes stay in the dataset.** A suffix the validator lets through names something
strictly below the directory of the dataset, without leaving it on the way, if and only if it
has more names than two dots at its end take back. -/
theorem confined_iff (productId datasetId s : String) (h : raiseOnWrongKeySuffix s = .ok ()) :
    Confined [productId, datasetId] s ↔ Descends s := by
  have hinit := dotdot_notMem_dropLast h
  have hsplit := List.dropLast_append_getLast (pieces_ne_nil s)
  by_cases hlast : (pieces s).getLast (pieces_ne_nil s) = ".."
  · rw [hlast] at hsplit
    exact confined_iff_of_last (by simp) hsplit.symm hinit
  · refine confined_iff_of_notMem fun hmem => ?_
    rw [← hsplit] at hmem
    rcases List.mem_append.mp hmem with hmem | hmem
    · exact hinit hmem
    · exact hlast (List.mem_singleton.mp hmem).symm

theorem confined_iff_folder :
    raiseOnWrongKeySuffix "a/b/.." = .ok () ∧
      (Confined ["prod", "dset"] "a/b/.." ↔ Descends "a/b/..") :=
  ⟨by decide +kernel, confined_iff "prod" "dset" "a/b/.." (by decide +kernel)⟩

/-- The product itself can be named. -/
theorem not_confined_dotdot :
    raiseOnWrongKeySuffix ".." = .ok () ∧ ¬ Confined ["prod", "dset"] ".." := by
  refine ⟨by decide +kernel, fun h => ?_⟩
  have hstay := h.1 (pieces "..") (List.prefix_refl _)
  exact absurd hstay (by decide +kernel)

end MarineDelivery.Confinement
