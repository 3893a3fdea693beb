import Mathlib.Data.List.Basic

/-!
Words cut where an assertion holds.

A lazy pattern reads on until an assertion about the last letter read and the letters ahead
holds, or the word is at its end; the next match begins where this one ends. What comes out is
told without the scan: the pieces make up the word, and the assertion holds at the end of each
but the last, and nowhere else.
-/

namespace MarineDelivery.Pieces

variable {α : Type*} (stop : α → List α → Bool)

/-- The matches from the letter `a` on, when `w` of the current one has been read before it. -/
def matchesFrom (w : List α) (a : α) : List α → List (List α)
  | [] => [w ++ [a]]
  | b :: r =>
    if stop a (b :: r) then (w ++ [a]) :: matchesFrom [] b r else matchesFrom (w ++ [a]) b r

/-- All matches in a word. -/
def pieces : List α → List (List α)
  | [] => []
  | a :: r => matchesFrom stop [] a r

/-- Cut where the assertion holds, and only there. -/
inductive Cut : List (List α) → Prop
  | nil : Cut []
  | single (a : α) : Cut [[a]]
  | stop {a b : α} {w : List α} {ws : List (List α)} (h : stop a (b :: (w ++ ws.flatten)) = true)
    (hcut : Cut ((b :: w) :: ws)) : Cut ([a] :: (b :: w) :: ws)
  | go {a b : α} {w : List α} {ws : List (List α)} (h : stop a (b :: (w ++ ws.flatten)) = false)
    (hcut : Cut ((b :: w) :: ws)) : Cut ((a :: b :: w) :: ws)

variable {stop}

lemma matchesFrom_spec (a : α) (r : List α) :
    ∃ v ws, (∀ w, matchesFrom stop w a r = (w ++ a :: v) :: ws) ∧
      r = v ++ ws.flatten ∧ Cut stop ((a :: v) :: ws) := by
  induction r generalizing a with
  | nil => exact ⟨[], [], fun w => rfl, rfl, .single a⟩
  | cons b r ih =>
      obtain ⟨v, ws, hscan, rfl, hcut⟩ := ih b
      cases hstop : stop a (b :: (v ++ ws.flatten)) with
      | true =>
          refine ⟨[], (b :: v) :: ws, fun w => ?_, rfl, .stop hstop hcut⟩
          rw [matchesFrom, if_pos hstop, hscan, List.nil_append]
      | false =>
          refine ⟨b :: v, ws, fun w => ?_, rfl, .go hstop hcut⟩
          rw [matchesFrom, if_neg (by simp [hstop]), hscan, List.append_assoc,
            List.singleton_append]

lemma matchesFrom_of_cut {cs : List (List α)} (h : Cut stop cs) {a : α} {v : List α}
    {ws : List (List α)} (hcs : cs = (a :: v) :: ws) (w : List α) :
    matchesFrom stop w a (v ++ ws.flatten) = (w ++ a :: v) :: ws := by
  induction h generalizing a v ws w with
  | nil => cases hcs
  | single a => cases hcs; rfl
  | @stop a b v ws hstop hcut ih =>
      cases hcs
      rw [List.nil_append, List.flatten_cons, List.cons_append, matchesFrom, if_pos hstop,
        ih rfl, List.nil_append]
  | @go a b v ws hgo hcut ih =>
      cases hcs
      rw [List.cons_append, matchesFrom, if_neg (by simp [hgo]), ih rfl,
        List.append_assoc, List.singleton_append]

lemma pieces_flatten_of_cut {ws : List (List α)} (h : Cut stop ws) :
    pieces stop ws.flatten = ws := by
  cases h with
  | nil => rfl
  | single a => rfl
  | stop hstop hcut => exact matchesFrom_of_cut (.stop hstop hcut) rfl []
  | go hgo hcut => exact matchesFrom_of_cut (.go hgo hcut) rfl []

/-- **The scan finds the cuts**, all of them and no others. -/
theorem pieces_eq_iff {w : List α} {ws : List (List α)} :
    pieces stop w = ws ↔ w = ws.flatten ∧ Cut stop ws := by
  constructor
  · rintro rfl
    cases w with
    | nil => exact ⟨rfl, .nil⟩
    | cons a r =>
        obtain ⟨v, ws, hscan, hr, hcut⟩ := @matchesFrom_spec _ stop a r
        rw [pieces, hscan, List.nil_append]
        exact ⟨by rw [hr]; rfl, hcut⟩
  · rintro ⟨rfl, hcut⟩
    exact pieces_flatten_of_cut hcut

lemma flatten_pieces (w : List α) : (pieces stop w).flatten = w :=
  (pieces_eq_iff.mp rfl).1.symm

/-- The assertion holds before every piece but the first. -/
lemma Cut.exists_stop {ws : List (List α)} (h : Cut stop ws) :
    ∀ w ∈ ws.tail, ∃ a b v r, w = b :: v ∧ stop a (b :: r) = true := by
  induction h with
  | nil | single a =>
      intro w hw
      cases hw
  | @stop a b v ws hstop hcut ih =>
      intro w hw
      rcases List.mem_cons.mp hw with rfl | hw
      · exact ⟨a, b, v, v ++ ws.flatten, rfl, hstop⟩
      · exact ih w hw
  | go hgo hcut ih => exact ih

end MarineDelivery.Pieces
