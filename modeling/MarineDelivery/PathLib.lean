import Mathlib.Data.String.Basic
import Mathlib.Data.List.Induction
import Mathlib.Data.List.Lex
import MarineDelivery.Segments

/-!
Paths as `pathlib` reads them on POSIX.

A string is a root — nothing, one slash, or exactly two — and the components between the
slashes, where empty components and lone dots are dropped and `..` is kept. `str` writes a
path back; reading it again gives the same path.
-/

namespace MarineDelivery.PathLib

open MarineDelivery.Segments

/-- The components `pathlib` does not drop. -/
def keep (c : List Char) : Bool := c ≠ [] && c ≠ ['.']

def IsComponent (c : String) : Prop := keep c.toList = true ∧ '/' ∉ c.toList

instance (c : String) : Decidable (IsComponent c) := inferInstanceAs (Decidable (_ ∧ _))

lemma keep_nil : keep [] = false := rfl

/-- A parsed path. -/
structure PosixPath where
  root : String
  tail : List String
  root_mem : root = "" ∨ root = "/" ∨ root = "//"
  tail_mem : ∀ c ∈ tail, IsComponent c
  deriving DecidableEq

/-- `posixpath.splitroot`: the root, and what follows it. -/
def splitroot : List Char → String × List Char
  | '/' :: '/' :: '/' :: rel => ("/", '/' :: '/' :: rel)
  | '/' :: '/' :: rel => ("//", rel)
  | '/' :: rel => ("/", rel)
  | rel => ("", rel)

/-- The components of a string, whatever its root. -/
def components (s : String) : List String := (segments '/' keep s.toList).map String.ofList

lemma components_mem {s c : String} (h : c ∈ components s) : IsComponent c := by
  obtain ⟨w, hw, rfl⟩ := List.mem_map.mp h
  simpa [IsComponent] using mem_segments '/' keep hw

lemma splitroot_root (w : List Char) :
    (splitroot w).1 = "" ∨ (splitroot w).1 = "/" ∨ (splitroot w).1 = "//" := by
  unfold splitroot
  split <;> simp

/-- The slashes of the root carry no component. -/
lemma segments_splitroot (w : List Char) :
    segments '/' keep (splitroot w).2 = segments '/' keep w := by
  unfold splitroot
  split <;> simp [segments_cons_sep '/' keep keep_nil]

lemma splitroot_of_head {w : List Char} (h : w.head? ≠ some '/') : splitroot w = ("", w) := by
  unfold splitroot
  split <;> simp_all

lemma splitroot_slash {w : List Char} (h : w.head? ≠ some '/') :
    splitroot ('/' :: w) = ("/", w) := by
  rcases w with _ | ⟨x, w⟩
  · rfl
  · have hx : x ≠ '/' := by simpa using h
    simp [splitroot, hx]

lemma splitroot_slash_slash {w : List Char} (h : w.head? ≠ some '/') :
    splitroot ('/' :: '/' :: w) = ("//", w) := by
  rcases w with _ | ⟨x, w⟩
  · rfl
  · have hx : x ≠ '/' := by simpa using h
    simp [splitroot, hx]

namespace PosixPath

/-- `Path(s)`. -/
def ofString (s : String) : PosixPath where
  root := (splitroot s.toList).1
  tail := (segments '/' keep (splitroot s.toList).2).map String.ofList
  root_mem := splitroot_root _
  tail_mem := by rw [segments_splitroot]; exact fun _ => components_mem

/-- `Path.parts`: a root counts as the first part. -/
def parts (p : PosixPath) : List String := if p.root = "" then p.tail else p.root :: p.tail

/-- `str(path)`. -/
def str (p : PosixPath) : String :=
  if p.root = "" then if p.tail = [] then "." else "/".intercalate p.tail
  else p.root ++ "/".intercalate p.tail

def isAbsolute (p : PosixPath) : Bool := p.root ≠ ""

@[ext] lemma ext {p q : PosixPath} (hr : p.root = q.root) (ht : p.tail = q.tail) : p = q := by
  cases p; cases q; simp_all

@[simp] lemma tail_ofString (s : String) : (ofString s).tail = components s := by
  simp [ofString, components, segments_splitroot]

lemma root_ofString_of_head {s : String} (h : s.toList.head? ≠ some '/') :
    (ofString s).root = "" := by
  simp [ofString, splitroot_of_head h]

end PosixPath

open PosixPath

/-! ### Reading what was written -/

lemma toList_intercalate_slash (cs : List String) :
    ("/".intercalate cs).toList = join '/' (cs.map String.toList) := by
  rw [String.toList_intercalate]
  rfl

lemma components_intercalate {cs : List String} (h : ∀ c ∈ cs, IsComponent c) :
    components ("/".intercalate cs) = cs := by
  rw [components, toList_intercalate_slash, segments_join '/' keep keep_nil, List.map_map]
  · simp [Function.comp_def]
  · intro w hw
    obtain ⟨c, hc, rfl⟩ := List.mem_map.mp hw
    exact h c hc

lemma components_append_slash (a b : String) :
    components (a ++ "/" ++ b) = components a ++ components b := by
  have h : (a ++ "/" ++ b).toList = a.toList ++ '/' :: b.toList := by
    simp [String.toList_append]
  rw [components, h, segments_append, List.map_append, components, components]

lemma components_cons_slash (a : String) : components ("/" ++ a) = components a := by
  have h : ("/" ++ a).toList = '/' :: a.toList := by simp [String.toList_append]
  rw [components, h, segments_cons_sep '/' keep keep_nil, components]

lemma components_of_isComponent {c : String} (h : IsComponent c) : components c = [c] := by
  rw [components, segments_of_notMem '/' keep h.2, if_pos h.1]
  simp

lemma components_empty : components "" = [] := by decide

lemma components_dot : components "." = [] := by decide

/-- The first character of joined components is not a slash. -/
lemma head_intercalate {cs : List String} (h : ∀ c ∈ cs, IsComponent c) :
    ("/".intercalate cs).toList.head? ≠ some '/' := by
  rcases cs with _ | ⟨c, ds⟩
  · simp
  · obtain ⟨hk, hs⟩ := h c (by simp)
    obtain ⟨x, w, hw⟩ : ∃ x w, c.toList = x :: w :=
      List.exists_cons_of_ne_nil (by rintro e; rw [e] at hk; exact absurd hk (by decide))
    have hx : x ≠ '/' := by rintro rfl; exact hs (by simp [hw])
    rw [toList_intercalate_slash]
    rcases ds with _ | ⟨d, ds⟩
    · simpa [join, hw] using hx
    · simpa [join_cons_cons, hw] using hx

/-- **Reading a written path gives the path.** -/
theorem ofString_str (p : PosixPath) : ofString p.str = p := by
  obtain ⟨root, tail, hroot, htail⟩ := p
  by_cases hr : root = ""
  · subst hr
    by_cases ht : tail = []
    · subst ht
      have hs : (⟨"", [], hroot, htail⟩ : PosixPath).str = "." := by simp [str]
      rw [hs]
      exact PosixPath.ext (root_ofString_of_head (by decide))
        (by rw [tail_ofString, components_dot])
    · have hs : (⟨"", tail, hroot, htail⟩ : PosixPath).str = "/".intercalate tail := by
        simp [str, ht]
      rw [hs]
      exact PosixPath.ext (root_ofString_of_head (head_intercalate htail))
        (by rw [tail_ofString, components_intercalate htail])
  · have hs : (⟨root, tail, hroot, htail⟩ : PosixPath).str = root ++ "/".intercalate tail := by
      simp [str, hr]
    have hh := head_intercalate htail
    rw [hs]
    rcases hroot.resolve_left hr with rfl | rfl
    · refine PosixPath.ext ?_ ?_
      · simp only [ofString, String.toList_append]
        exact congrArg Prod.fst (splitroot_slash hh)
      · rw [tail_ofString, components_cons_slash, components_intercalate htail]
    · have hsplit : "//" ++ "/".intercalate tail = "/" ++ ("/" ++ "/".intercalate tail) := by
        rw [← String.append_assoc]; rfl
      refine PosixPath.ext ?_ ?_
      · simp only [ofString, String.toList_append]
        exact congrArg Prod.fst (splitroot_slash_slash hh)
      · rw [tail_ofString, hsplit, components_cons_slash, components_cons_slash,
          components_intercalate htail]

lemma str_injective : Function.Injective str := fun p q h => by
  rw [← ofString_str p, h, ofString_str q]

/-! ### Joining parts -/

/-- `posixpath.join` of two paths. -/
def pathJoin (a b : String) : String :=
  if b.toList.head? = some '/' then b
  else if a = "" ∨ a.toList.getLast? = some '/' then a ++ b
  else a ++ "/" ++ b

/-- `Path(*parts)`. -/
def PosixPath.ofParts (ps : List String) : PosixPath := ofString (ps.foldl pathJoin "")

lemma IsComponent.ne_nil {c : String} (h : IsComponent c) : c.toList ≠ [] := fun e => by
  rw [IsComponent, e] at h
  exact absurd h.1 (by decide)

lemma IsComponent.head {c : String} (h : IsComponent c) : c.toList.head? ≠ some '/' := fun e =>
  h.2 (List.mem_of_mem_head? e)

lemma IsComponent.last {c : String} (h : IsComponent c) : c.toList.getLast? ≠ some '/' := fun e =>
  h.2 (List.mem_of_mem_getLast? e)

lemma intercalate_concat {cs : List String} (hne : cs ≠ []) (c : String) :
    "/".intercalate (cs ++ [c]) = "/".intercalate cs ++ "/" ++ c := by
  rw [← String.toList_inj, toList_intercalate_slash, List.map_append, List.map_singleton,
    join_concat '/' (by simpa using hne), String.toList_append, String.toList_append,
    toList_intercalate_slash]
  simp

lemma foldl_pathJoin {cs : List String} (h : ∀ c ∈ cs, IsComponent c) :
    cs.foldl pathJoin "" = "/".intercalate cs := by
  induction cs using List.reverseRecOn with
  | nil => simp
  | append_singleton cs c ih =>
      have hc := h c (by simp)
      have hcs : ∀ d ∈ cs, IsComponent d := fun d hd => h d (by simp [hd])
      rw [List.foldl_append, ih hcs, List.foldl_cons, List.foldl_nil, pathJoin, if_neg hc.head]
      rcases List.eq_nil_or_concat cs with rfl | ⟨ds, d, rfl⟩
      · simp
      · rw [List.concat_eq_append] at hcs ⊢
        have hd : IsComponent d := hcs d (by simp)
        have hlast : ("/".intercalate (ds ++ [d])).toList.getLast? = d.toList.getLast? := by
          rcases eq_or_ne ds [] with rfl | hds
          · simp
          · rw [intercalate_concat hds, String.toList_append,
              List.getLast?_append_of_ne_nil _ hd.ne_nil]
        have hne : "/".intercalate (ds ++ [d]) ≠ "" := by
          intro e
          rw [e] at hlast
          exact hd.ne_nil (List.getLast?_eq_none_iff.mp (by simpa using hlast.symm))
        rw [if_neg (by rw [hlast, not_or]; exact ⟨hne, hd.last⟩),
          intercalate_concat (show ds ++ [d] ≠ [] by simp) c]

/-- Components are not touched when they are put together again. -/
lemma ofParts_components {cs : List String} (h : ∀ c ∈ cs, IsComponent c) :
    (PosixPath.ofParts cs).root = "" ∧ (PosixPath.ofParts cs).tail = cs := by
  rw [PosixPath.ofParts, foldl_pathJoin h]
  exact ⟨root_ofString_of_head (head_intercalate h), by
    rw [tail_ofString, components_intercalate h]⟩

/-! ### Order -/

/-- What two paths are compared by: the written path, cut at every slash. -/
def strParts (p : PosixPath) : List String := (p.str.toList.splitOn '/').map String.ofList

lemma strParts_injective : Function.Injective strParts := fun p q h => by
  have hs : p.str.toList.splitOn '/' = q.str.toList.splitOn '/' :=
    List.map_injective_iff.mpr (fun a b e => String.ofList_injective e) h
  have := congrArg (join '/') hs
  simp only [join, List.intercalate_splitOn, String.toList_inj] at this
  exact str_injective this

end MarineDelivery.PathLib
