import MarineDelivery.Validation

/-!
What an anchor keeps of a path.

The key suffix of a path under an anchor is its components behind the first occurrence of the
anchor, written with single slashes. Nothing before the anchor shows in it, and reading it
gives these components back.
-/

namespace MarineDelivery.Anchoring

open MarineDelivery.PathLib MarineDelivery.PathLib.PosixPath MarineDelivery.Common
open MarineDelivery.Segments MarineDelivery.Validation

/-- Components with a slash between each two, and a lone dot for none. -/
def joined (cs : List String) : String := if cs = [] then "." else "/".intercalate cs

/-- The pieces of a string between its slashes, none dropped. -/
def pieces (s : String) : List String := (s.toList.splitOn '/').map String.ofList

/-- What is kept of a path: `before` and the anchor are gone, `rest` is what `s` says. -/
structure Keeps (anchor : String) (before rest : List String) (s : String) : Prop where
  eq_joined : s = joined rest
  relative : isabs s = false
  pieces_ne : ∀ c ∈ pieces s, c ≠ "" ∧ (s ≠ "." → c ≠ ".")
  parts_eq : (ofString s).parts = rest
  /-- Any path that goes on in the same way behind its first occurrence of the anchor. -/
  same : ∀ q before', (ofString q).parts = before' ++ anchor :: rest → anchor ∉ before' →
    localPathToKeySuffix q (some anchor) = .ok s
  /-- Any place to which the path from the anchor on is moved. -/
  moved : anchor ∉ ["/", "//"] → ∀ q, anchor ∉ (ofString q).parts →
    localPathToKeySuffix (pathJoin q ("/".intercalate (anchor :: rest))) (some anchor) = .ok s
  /-- Any other path under any anchor. -/
  eq_iff : ∀ q anchor' before' rest', (ofString q).parts = before' ++ anchor' :: rest' →
    anchor' ∉ before' → (localPathToKeySuffix q (some anchor') = .ok s ↔ rest' = rest)

/-! ### Written components -/

lemma str_ofParts {cs : List String} (h : ∀ c ∈ cs, IsComponent c) :
    (ofParts cs).str = joined cs := by
  obtain ⟨hroot, htail⟩ := ofParts_components h
  rw [str, if_pos hroot, htail, joined]

lemma parts_ofString_joined {cs : List String} (h : ∀ c ∈ cs, IsComponent c) :
    (ofString (joined cs)).parts = cs := by
  obtain ⟨hroot, htail⟩ := ofParts_components h
  rw [← str_ofParts h, ofString_str, parts, if_pos hroot, htail]

lemma pieces_intercalate {cs : List String} (h : ∀ c ∈ cs, IsComponent c) (hne : cs ≠ []) :
    pieces ("/".intercalate cs) = cs := by
  have hsep : ∀ w ∈ cs.map String.toList, '/' ∉ w := by
    intro w hw
    obtain ⟨c, hc, rfl⟩ := List.mem_map.mp hw
    exact (h c hc).2
  have hsplit : ("/".intercalate cs).toList.splitOn '/' = cs.map String.toList := by
    rw [toList_intercalate_slash, join]
    exact List.splitOn_intercalate '/' hsep (by simpa using hne)
  rw [pieces, hsplit, List.map_map]
  simp [Function.comp_def]

lemma ne_dot_of_isComponent {c : String} (h : IsComponent c) : c ≠ "" ∧ c ≠ "." := by
  constructor
  · rintro rfl
    exact absurd h (by decide)
  · rintro rfl
    exact absurd h (by decide)

lemma pieces_joined {cs : List String} (h : ∀ c ∈ cs, IsComponent c) :
    ∀ c ∈ pieces (joined cs), c ≠ "" ∧ (joined cs ≠ "." → c ≠ ".") := by
  intro c hc
  by_cases hne : cs = []
  · subst hne
    have hdot : pieces (joined []) = ["."] := by decide
    rw [hdot, List.mem_singleton] at hc
    subst hc
    exact ⟨by decide, fun hs => absurd rfl hs⟩
  · rw [joined, if_neg hne, pieces_intercalate h hne] at hc
    have hdot := ne_dot_of_isComponent (h c hc)
    exact ⟨hdot.1, fun _ => hdot.2⟩

lemma isabs_joined {cs : List String} (h : ∀ c ∈ cs, IsComponent c) :
    isabs (joined cs) = false := by
  rw [isabs, decide_eq_false_iff_not, joined]
  split_ifs with hne
  · decide
  · exact head_intercalate h

/-! ### Moving a path -/

/-- What comes behind `u` does not change its root, unless a slash meets slashes only. -/
lemma splitroot_append {u v : List Char}
    (h : v.head? ≠ some '/' ∨ u ≠ [] ∧ u.getLast? ≠ some '/') :
    (splitroot (u ++ v)).1 = (splitroot u).1 := by
  rcases u with _ | ⟨x, u⟩
  · have hv := h.resolve_right fun hu => hu.1 rfl
    rw [List.nil_append, splitroot_of_head hv]
    rfl
  by_cases hx : x = '/'
  swap
  · rw [splitroot_of_head (by simpa using hx), splitroot_of_head (by simpa using hx)]
  subst hx
  rcases u with _ | ⟨y, u⟩
  · have hv := h.resolve_right fun hu => hu.2 rfl
    rw [List.singleton_append, splitroot_slash hv]
    rfl
  by_cases hy : y = '/'
  swap
  · rw [List.cons_append, splitroot_slash (by simpa using hy), splitroot_slash (by simpa using hy)]
  subst hy
  rcases u with _ | ⟨z, u⟩
  · have hv := h.resolve_right fun hu => hu.2 rfl
    rw [List.cons_append, List.singleton_append, splitroot_slash_slash hv]
    rfl
  by_cases hz : z = '/'
  · subst hz
    rfl
  · rw [List.cons_append, List.cons_append, splitroot_slash_slash (by simpa using hz),
      splitroot_slash_slash (by simpa using hz)]

/-- A slash at the end carries no component. -/
lemma components_append_of_last {q t : String} (hlast : q.toList.getLast? = some '/') :
    components (q ++ t) = components q ++ components t := by
  obtain ⟨w, hw⟩ := List.getLast?_eq_some_iff.mp hlast
  have hq : q.toList = w ++ '/' :: [] := hw
  have hqt : (q ++ t).toList = w ++ '/' :: t.toList := by
    rw [String.toList_append, hw, List.append_assoc]
    rfl
  have hnil : segments '/' keep ([] : List Char) = [] := rfl
  rw [components, hqt, components, hq, components, segments_append, segments_append, hnil,
    List.append_nil, List.map_append]

/-- **Joining concatenates the parts.** -/
lemma parts_pathJoin {q : String} {cs : List String} (h : ∀ c ∈ cs, IsComponent c) :
    (ofString (pathJoin q ("/".intercalate cs))).parts = (ofString q).parts ++ cs := by
  have hhead := head_intercalate h
  have hcomponents := components_intercalate h
  have hparts : ∀ t, (ofString t).root = (ofString q).root →
      components t = components q ++ cs → (ofString t).parts = (ofString q).parts ++ cs := by
    intro t hroot htail
    unfold parts
    rw [hroot, tail_ofString, tail_ofString, htail]
    split_ifs <;> simp
  unfold pathJoin
  rw [if_neg hhead]
  split_ifs with hq
  · refine hparts _ ?_ ?_
    · simp only [ofString, String.toList_append]
      exact splitroot_append (Or.inl hhead)
    · rcases hq with rfl | hlast
      · rw [String.empty_append, components_empty, hcomponents, List.nil_append]
      · rw [components_append_of_last hlast, hcomponents]
  · obtain ⟨hne, hlast⟩ := not_or.mp hq
    refine hparts _ ?_ ?_
    · simp only [ofString, String.toList_append]
      rw [splitroot_append (Or.inl hhead)]
      exact splitroot_append (Or.inr ⟨by simpa using hne, hlast⟩)
    · rw [components_append_slash, hcomponents]

/-! ### The suffix -/

lemma isComponent_of_mem_parts {p : PosixPath} {a : String} (h : a ∈ p.parts)
    (hroot : a ∉ ["/", "//"]) : IsComponent a := by
  unfold parts at h
  split_ifs at h with hr
  · exact p.tail_mem a h
  · rcases List.mem_cons.mp h with rfl | h
    · rcases p.root_mem.resolve_left hr with hr | hr <;> simp [hr] at hroot
    · exact p.tail_mem a h

lemma localPathToKeySuffix_of_parts {q a : String} {before rest : List String}
    (h : (ofString q).parts = before ++ a :: rest) (ha : a ∉ before) :
    (∀ c ∈ rest, IsComponent c) ∧ localPathToKeySuffix q (some a) = .ok (joined rest) := by
  have hafter : afterFirst a (ofString q).parts = some rest := by
    rw [h]
    exact afterFirst_append ha rest
  have hrest := isComponent_of_afterFirst hafter
  refine ⟨hrest, ?_⟩
  rw [localPathToKeySuffix_some hafter, str_ofParts hrest]

/-- **An anchor keeps exactly what follows it.** For every path and every anchor among its
parts there is a key suffix: the components behind the first occurrence of the anchor, whatever
comes before it. -/
theorem anchor_keeps (p a : String) (h : a ∈ (ofString p).parts) :
    ∃ before rest s, (ofString p).parts = before ++ a :: rest ∧ a ∉ before ∧
      localPathToKeySuffix p (some a) = .ok s ∧ Keeps a before rest s := by
  obtain ⟨before, rest, hparts, hbefore, -⟩ := afterFirst_of_mem h
  obtain ⟨hrest, hsuffix⟩ := localPathToKeySuffix_of_parts hparts hbefore
  refine ⟨before, rest, joined rest, hparts, hbefore, hsuffix, rfl, isabs_joined hrest,
    pieces_joined hrest, parts_ofString_joined hrest, ?_, ?_, ?_⟩
  · intro q before' hq hbefore'
    exact (localPathToKeySuffix_of_parts hq hbefore').2
  · intro hroot q hq
    have ha := isComponent_of_mem_parts h hroot
    have hall : ∀ c ∈ a :: rest, IsComponent c := List.forall_mem_cons.mpr ⟨ha, hrest⟩
    exact (localPathToKeySuffix_of_parts (parts_pathJoin hall) hq).2
  · intro q a' before' rest' hq hbefore'
    obtain ⟨hrest', hsuffix'⟩ := localPathToKeySuffix_of_parts hq hbefore'
    rw [hsuffix', Except.ok.injEq]
    constructor
    · intro hjoined
      rw [← parts_ofString_joined hrest', hjoined, parts_ofString_joined hrest]
    · rintro rfl
      rfl

theorem anchor_keeps_twice :
    ∃ before rest s, (ofString "/data//ds/./2024/../ds/x.nc").parts = before ++ "ds" :: rest ∧
      "ds" ∉ before ∧ localPathToKeySuffix "/data//ds/./2024/../ds/x.nc" (some "ds") = .ok s ∧
      Keeps "ds" before rest s :=
  anchor_keeps "/data//ds/./2024/../ds/x.nc" "ds" (by decide)

example : localPathToKeySuffix "/data//ds/./2024/../ds/x.nc" (some "ds") =
    .ok "2024/../ds/x.nc" := by decide +kernel

end MarineDelivery.Anchoring
