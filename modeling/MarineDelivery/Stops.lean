import MarineDelivery.Traced

/-!
Computations that stop where another one goes on.

Of two computations the first may end early, when the second one has something behind it that
is not good. As long as all is good they are the same, and whatever the first one does the
second one does, too. This is kept by sequences and by loops.
-/

namespace MarineDelivery.Stops

open MarineDelivery.Traced

variable {ω ε α β : Type}

/-- When `x` returns, or `y` returns something good, they are the same; else `x` has done the
first of what `y` does. -/
structure StopsEarly (Good : α → Prop) (x y : Comp ω ε α) : Prop where
  returned : ∀ a, x.result = .ok a → x = y ∧ Good a
  good : ∀ a, y.result = .ok a → Good a → x = y
  events : x.events <+: y.events

variable {good : α → Prop} {good' : β → Prop} {x y : Comp ω ε α}

lemma StopsEarly.refl (h : ∀ a, x.result = .ok a → good a) : StopsEarly good x x :=
  ⟨fun a ha => ⟨rfl, h a ha⟩, fun _ _ _ => rfl, List.prefix_refl _⟩

/-- **The sequence rule**: the second halves are compared after something good only, as they
return nothing good after anything else. -/
lemma StopsEarly.bind {f g : α → Comp ω ε β} (h : StopsEarly good x y)
    (hfg : ∀ a, good a → StopsEarly good' (f a) (g a))
    (hback : ∀ a b, (g a).result = .ok b → good' b → good a) :
    StopsEarly good' (x >>= f) (y >>= g) := by
  have hsame : ∀ a, x.result = .ok a → f a = g a → x >>= f = y >>= g := by
    intro a ha hg
    obtain ⟨rfl, -⟩ := h.returned a ha
    rw [Comp.bind_ok ha, Comp.bind_ok ha, hg]
  refine ⟨fun b hb => ?_, fun b hb hgood => ?_, ?_⟩
  · obtain ⟨a, ha, hf⟩ := Comp.bind_result_eq_ok.mp hb
    obtain ⟨hg, hgood⟩ := (hfg a (h.returned a ha).2).returned b hf
    exact ⟨hsame a ha hg, hgood⟩
  · obtain ⟨a, ha, hg⟩ := Comp.bind_result_eq_ok.mp hb
    have hgood' := hback a b hg hgood
    have hx := h.good a ha hgood'
    exact hsame a (hx ▸ ha) ((hfg a hgood').good b hg hgood)
  · cases hx : x.result with
    | error e =>
        rw [Comp.bind_error hx]
        refine h.events.trans ?_
        cases hy : y.result with
        | error e' =>
            have hstop : (y >>= g).events = y.events := by rw [Comp.bind_error hy]
            exact hstop ▸ List.prefix_refl _
        | ok a =>
            rw [Comp.bind_ok hy]
            exact List.prefix_append _ _
    | ok a =>
        obtain ⟨rfl, hgood⟩ := h.returned a hx
        rw [Comp.bind_ok hx, Comp.bind_ok hx]
        exact (List.prefix_append_right_inj _).mpr (hfg a hgood).events

lemma StopsEarly.lift_bind (z : Except ε α) {f g : α → Comp ω ε β}
    (hfg : ∀ a, StopsEarly good' (f a) (g a)) :
    StopsEarly good' (Comp.lift z >>= f) (Comp.lift z >>= g) :=
  (StopsEarly.refl fun _ _ => trivial).bind (fun a _ => hfg a) fun _ _ _ _ => trivial

/-- **The loop rule**: a loop stops early if its bodies do. -/
lemma StopsEarly.eachFrom {f g : ℕ → α → Comp ω ε β} {l : List α}
    (h : ∀ n, ∀ a ∈ l, StopsEarly good' (f n a) (g n a)) (n : ℕ) :
    StopsEarly (fun bs => ∀ b ∈ bs, good' b) (Comp.eachFrom f n l) (Comp.eachFrom g n l) := by
  induction l generalizing n with
  | nil =>
      refine .refl fun bs hbs => ?_
      cases hbs
      exact fun b hb => by cases hb
  | cons a l ih =>
      have hrest := ih (fun n b hb => h n b (List.mem_cons_of_mem a hb)) (n + 1)
      refine (h n a List.mem_cons_self).bind (fun b hb => hrest.bind (fun bs hbs => ?_) ?_) ?_
      · refine .refl fun cs hcs => ?_
        cases hcs
        exact List.forall_mem_cons.mpr ⟨hb, hbs⟩
      · intro bs cs hcs hgood
        cases hcs
        exact (List.forall_mem_cons.mp hgood).2
      · intro b cs hcs hgood
        obtain ⟨bs, -, hcs⟩ := Comp.bind_result_eq_ok.mp hcs
        cases hcs
        exact (List.forall_mem_cons.mp hgood).1

end MarineDelivery.Stops
