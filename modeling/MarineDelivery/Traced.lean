import Mathlib.Data.List.Forall2
import Mathlib.Order.Basic

/-!
Computations that leave a trace of events and return a value or fail.

A failure keeps the events that came before it. The loop `eachFrom` runs a body on every
element of a list, telling it the position, and stops at the first failure; its rules say
that a loop that returns has returned what every body returned, in order.
-/

namespace MarineDelivery.Traced

/-- The events of a computation, oldest first, and how it ended. -/
structure Comp (ω ε α : Type) where
  events : List ω
  result : Except ε α

/-! ### Results up to a view -/

section View

variable {ε α β γ δ : Type}

/-- Two results that look alike are the same failure, or two values that look alike. -/
lemma map_eq_map_iff {f : α → γ} {g : β → γ} {x : Except ε α} {y : Except ε β} :
    x.map f = y.map g ↔
      (∃ e, x = .error e ∧ y = .error e) ∨ ∃ a b, x = .ok a ∧ y = .ok b ∧ f a = g b := by
  cases x <;> cases y <;> simp [Except.map, eq_comm]

lemma map_map (f : α → β) (g : β → γ) (x : Except ε α) :
    (x.map f).map g = x.map fun a => g (f a) := by
  cases x <;> rfl

/-- **The two-run rule**: sequences look alike when their first halves do and their second
halves do after values that look alike. -/
theorem bind_map_congr {f : α → γ} {g : β → γ} {x : Except ε α} {y : Except ε β}
    {α' β' : Type} {k : α → Except ε α'} {l : β → Except ε β'} {f' : α' → δ} {g' : β' → δ}
    (h : x.map f = y.map g) (hk : ∀ a b, x = .ok a → y = .ok b → f a = g b →
      (k a).map f' = (l b).map g') :
    (x >>= k).map f' = (y >>= l).map g' := by
  rcases map_eq_map_iff.mp h with ⟨e, rfl, rfl⟩ | ⟨a, b, rfl, rfl, hab⟩
  · rfl
  · exact hk a b rfl rfl hab

end View

namespace Comp

variable {ω ε α β γ : Type}

@[ext] lemma ext {x y : Comp ω ε α} (he : x.events = y.events) (hr : x.result = y.result) :
    x = y := by
  cases x; cases y; simp_all

protected def bind (x : Comp ω ε α) (f : α → Comp ω ε β) : Comp ω ε β :=
  match x.result with
  | .ok a => ⟨x.events ++ (f a).events, (f a).result⟩
  | .error e => ⟨x.events, .error e⟩

instance : Monad (Comp ω ε) where
  pure a := ⟨[], .ok a⟩
  bind := Comp.bind

/-- A computation without events. -/
def lift (x : Except ε α) : Comp ω ε α := ⟨[], x⟩

/-- Events with no value of interest. -/
def emit (es : List ω) : Comp ω ε Unit := ⟨es, .ok ()⟩

def throw (e : ε) : Comp ω ε α := ⟨[], .error e⟩

@[simp] lemma pure_events (a : α) : (pure a : Comp ω ε α).events = [] := rfl
@[simp] lemma pure_result (a : α) : (pure a : Comp ω ε α).result = .ok a := rfl
@[simp] lemma lift_events (x : Except ε α) : (lift x : Comp ω ε α).events = [] := rfl
@[simp] lemma lift_result (x : Except ε α) : (lift x : Comp ω ε α).result = x := rfl
@[simp] lemma emit_events (es : List ω) : (emit es : Comp ω ε Unit).events = es := rfl
@[simp] lemma emit_result (es : List ω) : (emit es : Comp ω ε Unit).result = .ok () := rfl
@[simp] lemma throw_events (e : ε) : (throw e : Comp ω ε α).events = [] := rfl
@[simp] lemma throw_result (e : ε) : (throw e : Comp ω ε α).result = .error e := rfl

lemma bind_ok {x : Comp ω ε α} {f : α → Comp ω ε β} {a : α} (h : x.result = .ok a) :
    x >>= f = ⟨x.events ++ (f a).events, (f a).result⟩ := by
  show Comp.bind x f = _
  rw [Comp.bind, h]

lemma bind_error {x : Comp ω ε α} {f : α → Comp ω ε β} {e : ε} (h : x.result = .error e) :
    x >>= f = ⟨x.events, .error e⟩ := by
  show Comp.bind x f = _
  rw [Comp.bind, h]

@[simp] lemma lift_ok_bind (a : α) (f : α → Comp ω ε β) : lift (.ok a) >>= f = f a := by
  rw [bind_ok (lift_result _)]; rfl

@[simp] lemma lift_error_bind (e : ε) (f : α → Comp ω ε β) :
    lift (.error e) >>= f = throw e := by
  rw [bind_error (lift_result _)]; rfl

lemma lift_bind (x : Except ε α) (f : α → Except ε β) :
    (lift (x >>= f) : Comp ω ε β) = lift x >>= fun a => lift (f a) := by
  cases x with
  | ok a => rw [lift_ok_bind]; rfl
  | error e => rw [lift_error_bind]; rfl

@[simp] lemma lift_pure (a : α) : (lift (pure a) : Comp ω ε α) = pure a := rfl

@[simp] lemma throw_bind (e : ε) (f : α → Comp ω ε β) : throw e >>= f = throw e := by
  rw [bind_error (throw_result e)]; rfl

@[simp] lemma bind_result (x : Comp ω ε α) (f : α → Comp ω ε β) :
    (x >>= f).result = x.result >>= fun a => (f a).result := by
  cases h : x.result with
  | ok a => rw [bind_ok h]; rfl
  | error e => rw [bind_error h]; rfl

lemma bind_events_eq_nil {x : Comp ω ε α} {f : α → Comp ω ε β} (hx : x.events = [])
    (hf : ∀ a, (f a).events = []) : (x >>= f).events = [] := by
  cases h : x.result with
  | ok a => simp [bind_ok h, hx, hf]
  | error e => rw [bind_error h, hx]

/-- A second half without events adds none. -/
lemma bind_events_left {x : Comp ω ε α} {f : α → Comp ω ε β} (hf : ∀ a, (f a).events = []) :
    (x >>= f).events = x.events := by
  cases h : x.result with
  | ok a => simp [bind_ok h, hf]
  | error e => rw [bind_error h]

lemma bind_pure_events (x : Comp ω ε α) (f : α → β) :
    (x >>= fun a => pure (f a)).events = x.events :=
  bind_events_left fun _ => rfl

lemma bind_pure_result (x : Comp ω ε α) (f : α → β) :
    (x >>= fun a => pure (f a)).result = x.result.map f := by
  rw [bind_result]
  cases x.result <;> rfl

lemma mem_bind_left {x : Comp ω ε α} {f : α → Comp ω ε β} {e : ω} (h : e ∈ x.events) :
    e ∈ (x >>= f).events := by
  cases hx : x.result with
  | ok a => rw [bind_ok hx]; exact List.mem_append_left _ h
  | error y => rw [bind_error hx]; exact h

lemma mem_bind_right {x : Comp ω ε α} {f : α → Comp ω ε β} {a : α} {e : ω}
    (hx : x.result = .ok a) (h : e ∈ (f a).events) : e ∈ (x >>= f).events := by
  rw [bind_ok hx]; exact List.mem_append_right _ h

lemma mem_bind {x : Comp ω ε α} {f : α → Comp ω ε β} {e : ω} (h : e ∈ (x >>= f).events) :
    e ∈ x.events ∨ ∃ a, x.result = .ok a ∧ e ∈ (f a).events := by
  cases hx : x.result with
  | ok a =>
      rw [bind_ok hx] at h
      exact (List.mem_append.mp h).imp_right fun h => ⟨a, rfl, h⟩
  | error y =>
      rw [bind_error hx] at h
      exact Or.inl h

/-- A sequence returns exactly when its two halves do. -/
lemma bind_result_eq_ok {x : Comp ω ε α} {f : α → Comp ω ε β} {b : β} :
    (x >>= f).result = .ok b ↔ ∃ a, x.result = .ok a ∧ (f a).result = .ok b := by
  cases h : x.result with
  | ok a => simp [bind_ok h]
  | error e => simp [bind_error h]

instance : LawfulMonad (Comp ω ε) := LawfulMonad.mk' _
  (fun x => by
    show Comp.bind x pure = x
    cases h : x.result <;> ext <;> simp [Comp.bind, h])
  (fun a f => by
    show Comp.bind _ _ = _
    simp [Comp.bind])
  (fun x f g => by
    show Comp.bind (Comp.bind x f) g = Comp.bind x fun a => Comp.bind (f a) g
    cases h : x.result with
    | error e => simp [Comp.bind, h]
    | ok a => cases hf : (f a).result <;> simp [Comp.bind, h, hf])

/-! ### Loops -/

/-- The body on every element and its position, in order. -/
def eachFrom (f : ℕ → α → Comp ω ε β) : ℕ → List α → Comp ω ε (List β)
  | _, [] => pure []
  | n, a :: l => do
    let b ← f n a
    let bs ← eachFrom f (n + 1) l
    pure (b :: bs)

@[simp] lemma eachFrom_nil (f : ℕ → α → Comp ω ε β) (n : ℕ) : eachFrom f n [] = pure [] := rfl

lemma eachFrom_cons_ok {f : ℕ → α → Comp ω ε β} {n : ℕ} {a : α} {l : List α} {bs : List β} :
    (eachFrom f n (a :: l)).result = .ok bs ↔
      ∃ b cs, bs = b :: cs ∧ (f n a).result = .ok b ∧ (eachFrom f (n + 1) l).result = .ok cs := by
  rw [eachFrom, bind_result_eq_ok]
  constructor
  · rintro ⟨b, hb, h⟩
    obtain ⟨cs, hcs, h⟩ := bind_result_eq_ok.mp h
    cases h
    exact ⟨b, cs, rfl, hb, hcs⟩
  · rintro ⟨b, cs, rfl, hb, hcs⟩
    exact ⟨b, hb, bind_result_eq_ok.mpr ⟨cs, hcs, rfl⟩⟩

/-- A loop over two lists, one after the other. -/
lemma eachFrom_append (f : ℕ → α → Comp ω ε β) (n : ℕ) (l r : List α) :
    eachFrom f n (l ++ r) = eachFrom f n l >>= fun bs =>
      eachFrom f (n + l.length) r >>= fun cs => pure (bs ++ cs) := by
  induction l generalizing n with
  | nil => simp [eachFrom]
  | cons x l ih =>
      rw [List.cons_append, eachFrom, eachFrom, ih]
      simp only [bind_assoc, pure_bind, List.cons_append, List.length_cons, Nat.add_assoc,
        Nat.add_comm 1]

lemma eachFrom_congr {f g : ℕ → α → Comp ω ε β} {n : ℕ} {l : List α}
    (h : ∀ i < l.length, ∀ a, f (n + i) a = g (n + i) a) : eachFrom f n l = eachFrom g n l := by
  induction l generalizing n with
  | nil => rfl
  | cons x l ih =>
      have hrest : eachFrom f (n + 1) l = eachFrom g (n + 1) l := ih fun i hi a => by
        have := h (i + 1) (by simpa using hi) a
        rwa [Nat.add_right_comm, Nat.add_assoc]
      have hx : f n x = g n x := h 0 (by simp) x
      rw [eachFrom, eachFrom, hrest, hx]

/-- **The loop rule**: a loop returns exactly what its bodies returned, position by
position. -/
theorem eachFrom_result_ok {f : ℕ → α → Comp ω ε β} {n : ℕ} {l : List α} {bs : List β} :
    (eachFrom f n l).result = .ok bs ↔
      l.length = bs.length ∧ ∀ i a b, l[i]? = some a → bs[i]? = some b →
        (f (n + i) a).result = .ok b := by
  induction l generalizing n bs with
  | nil => cases bs <;> simp
  | cons a l ih =>
      rw [eachFrom_cons_ok]
      constructor
      · rintro ⟨b, cs, rfl, hb, hcs⟩
        obtain ⟨hlen, hall⟩ := ih.mp hcs
        refine ⟨by simp [hlen], fun i x y hx hy => ?_⟩
        rcases i with _ | i
        · simp only [List.getElem?_cons_zero, Option.some.injEq] at hx hy
          subst hx hy; simpa using hb
        · simp only [List.getElem?_cons_succ] at hx hy
          have := hall i x y hx hy
          rwa [Nat.add_right_comm, Nat.add_assoc] at this
      · rintro ⟨hlen, hall⟩
        rcases bs with _ | ⟨b, cs⟩
        · simp at hlen
        · refine ⟨b, cs, rfl, by simpa using hall 0 a b rfl rfl, ih.mpr ⟨by simpa using hlen, ?_⟩⟩
          intro i x y hx hy
          have := hall (i + 1) x y (by simpa using hx) (by simpa using hy)
          rwa [Nat.add_right_comm, Nat.add_assoc]

/-- The events of a loop that returned are those of its bodies. -/
lemma mem_eachFrom_events {f : ℕ → α → Comp ω ε β} {n : ℕ} {l : List α} {e : ω}
    (h : e ∈ (eachFrom f n l).events) :
    ∃ i a, l[i]? = some a ∧ e ∈ (f (n + i) a).events := by
  induction l generalizing n with
  | nil => simp at h
  | cons a l ih =>
      have hrest : e ∈ (f n a).events ∨ e ∈ (eachFrom f (n + 1) l).events := by
        rcases mem_bind h with h | ⟨b, -, h⟩
        · exact Or.inl h
        · rcases mem_bind h with h | ⟨cs, -, h⟩
          · exact Or.inr h
          · cases h
      rcases hrest with h | h
      · exact ⟨0, a, rfl, by simpa using h⟩
      · obtain ⟨i, x, hx, he⟩ := ih h
        refine ⟨i + 1, x, by simpa using hx, ?_⟩
        rwa [Nat.add_right_comm, Nat.add_assoc] at he

/-- A loop that returned has all the events of its bodies. -/
lemma mem_eachFrom_of_body {f : ℕ → α → Comp ω ε β} {n i : ℕ} {l : List α} {bs : List β} {a : α}
    {e : ω} (h : (eachFrom f n l).result = .ok bs) (ha : l[i]? = some a)
    (he : e ∈ (f (n + i) a).events) : e ∈ (eachFrom f n l).events := by
  induction l generalizing n i bs with
  | nil => simp at ha
  | cons x l ih =>
      obtain ⟨b, cs, rfl, hb, hcs⟩ := eachFrom_cons_ok.mp h
      rw [eachFrom, bind_ok hb, bind_ok hcs]
      refine List.mem_append.mpr ?_
      rcases i with _ | i
      · obtain rfl : x = a := by simpa using ha
        exact Or.inl he
      · refine Or.inr (List.mem_append.mpr (Or.inl (ih hcs (by simpa using ha) ?_)))
        rwa [Nat.add_right_comm, Nat.add_assoc]

/-- Two loops whose bodies look alike return values that look alike. -/
lemma eachFrom_map_congr {f g : ℕ → α → Comp ω ε β} {h : β → γ}
    (hfg : ∀ n a, (f n a).result.map h = (g n a).result.map h) (n : ℕ) (l : List α) :
    (eachFrom f n l).result.map (List.map h) = (eachFrom g n l).result.map (List.map h) := by
  induction l generalizing n with
  | nil => rfl
  | cons a l ih =>
      rw [eachFrom, eachFrom, bind_result, bind_result]
      refine bind_map_congr (hfg n a) fun b b' _ _ hb => ?_
      rw [bind_result, bind_result]
      refine bind_map_congr (ih (n + 1)) fun bs bs' _ _ hbs => ?_
      simp [Except.map, hb, hbs]

lemma eachFrom_events_eq_nil {f : ℕ → α → Comp ω ε β} (hf : ∀ n a, (f n a).events = []) (n : ℕ)
    (l : List α) : (eachFrom f n l).events = [] := by
  refine List.eq_nil_iff_forall_not_mem.mpr fun e he => ?_
  obtain ⟨i, a, -, h⟩ := mem_eachFrom_events he
  rw [hf] at h
  cases h

end Comp

/-! ### Loops without events -/

section Except

variable {ε α β : Type}

/-- The loop rule for bodies that only return or fail. -/
lemma mapM_ok_iff {f : α → Except ε β} {l : List α} {bs : List β} :
    l.mapM f = .ok bs ↔ List.Forall₂ (fun a b => f a = .ok b) l bs := by
  induction l generalizing bs with
  | nil => simp [pure, Except.pure, eq_comm]
  | cons a l ih =>
      rw [List.mapM_cons]
      cases ha : f a with
      | error e => simp [bind, Except.bind, List.forall₂_cons_left_iff, ha]
      | ok b =>
          cases hl : l.mapM f with
          | error e =>
              have hn : ∀ cs, ¬ List.Forall₂ (fun a b => f a = .ok b) l cs := fun cs hc => by
                rw [ih.mpr hc] at hl; cases hl
              simp [bind, Except.bind, List.forall₂_cons_left_iff, hn]
          | ok cs =>
              have hcs : ∀ ds, List.Forall₂ (fun a b => f a = .ok b) l ds ↔ cs = ds := fun ds => by
                rw [← ih, hl, Except.ok.injEq]
              simp [bind, Except.bind, pure, Except.pure, List.forall₂_cons_left_iff, hcs, ha,
                eq_comm]

/-- Bodies that return one thing, under a condition. -/
lemma mapM_ok_iff_map {f : α → Except ε β} {P : α → Prop} {g : α → β} {l : List α}
    {bs : List β} (h : ∀ a b, f a = .ok b ↔ P a ∧ b = g a) :
    l.mapM f = .ok bs ↔ (∀ a ∈ l, P a) ∧ bs = l.map g := by
  rw [mapM_ok_iff]
  induction l generalizing bs with
  | nil => simp
  | cons a l ih =>
      rw [List.forall₂_cons_left_iff, List.forall_mem_cons, List.map_cons]
      simp only [h] at ih ⊢
      simp only [ih]
      constructor
      · rintro ⟨b, cs, ⟨hP, rfl⟩, ⟨hl, rfl⟩, rfl⟩
        exact ⟨⟨hP, hl⟩, rfl⟩
      · rintro ⟨⟨hP, hl⟩, rfl⟩
        exact ⟨_, _, ⟨hP, rfl⟩, ⟨hl, rfl⟩, rfl⟩

lemma mapM_ok {f : α → Except ε β} {g : α → β} {l : List α} (h : ∀ a ∈ l, f a = .ok (g a)) :
    l.mapM f = .ok (l.map g) := by
  rw [mapM_ok_iff, List.forall₂_map_right_iff, List.forall₂_same]
  exact h

/-- Two such loops look alike when their bodies do. -/
lemma mapM_map_congr {α' : Type} {γ : Type} {f : α → Except ε β} {g : α' → Except ε β}
    {h : β → γ} {l : List α} {l' : List α'}
    (hfg : List.Forall₂ (fun a a' => (f a).map h = (g a').map h) l l') :
    (l.mapM f).map (List.map h) = (l'.mapM g).map (List.map h) := by
  induction hfg with
  | nil => rfl
  | cons ha _ ih =>
      rw [List.mapM_cons, List.mapM_cons]
      refine bind_map_congr ha fun b b' _ _ hb => bind_map_congr ih fun bs bs' _ _ hbs => ?_
      simp [pure, Except.pure, Except.map, hb, hbs]

lemma exists_forall₂ {R : α → β → Prop} {l : List α} (h : ∀ a ∈ l, ∃ b, R a b) :
    ∃ bs, List.Forall₂ R l bs := by
  induction l with
  | nil => exact ⟨[], .nil⟩
  | cons a l ih =>
      obtain ⟨b, hb⟩ := h a (by simp)
      obtain ⟨bs, hbs⟩ := ih fun x hx => h x (by simp [hx])
      exact ⟨b :: bs, .cons hb hbs⟩

lemma forall₂_left {R : α → β → Prop} {l : List α} {bs : List β} (h : List.Forall₂ R l bs)
    {a : α} (ha : a ∈ l) : ∃ b ∈ bs, R a b := by
  induction h with
  | nil => cases ha
  | cons hr _ ih =>
      rcases List.mem_cons.mp ha with rfl | ha
      · exact ⟨_, List.mem_cons_self, hr⟩
      · obtain ⟨b, hb, hab⟩ := ih ha
        exact ⟨b, List.mem_cons_of_mem _ hb, hab⟩

lemma forall₂_getElem? {R : α → β → Prop} {l : List α} {bs : List β}
    (h : List.Forall₂ R l bs) {i : ℕ} {a : α} (ha : l[i]? = some a) :
    ∃ b, bs[i]? = some b ∧ R a b := by
  induction h generalizing i with
  | nil => simp at ha
  | cons hr _ ih =>
      rcases i with _ | i
      · obtain rfl := Option.some.inj ha
        exact ⟨_, rfl, hr⟩
      · exact ih ha

lemma forall₂_right {R : α → β → Prop} {l : List α} {bs : List β} (h : List.Forall₂ R l bs)
    {b : β} (hb : b ∈ bs) : ∃ a ∈ l, R a b :=
  forall₂_left h.flip hb

lemma pure_eq_ok {a b : α} : (pure a : Except ε α) = .ok b ↔ a = b := by
  simp [pure, Except.pure]

lemma ok_bind (a : α) (f : α → Except ε β) : (.ok a >>= f : Except ε β) = f a := rfl

lemma bind_eq_ok {x : Except ε α} {f : α → Except ε β} {b : β} :
    (x >>= f) = .ok b ↔ ∃ a, x = .ok a ∧ f a = .ok b := by
  cases x <;> simp [bind, Except.bind]

end Except

end MarineDelivery.Traced
