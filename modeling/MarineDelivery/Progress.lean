import Mathlib.Algebra.BigOperators.Group.Finset.Basic
import Mathlib.Algebra.Order.BigOperators.Group.Finset
import Mathlib.Tactic.Ring
import MarineDelivery.WorkerPool

/-!
Pools come to an end.

Every step of a pool is counted in the status of its task or in the collected results, so that
a run is no longer than its processes allow; and a pool with a worker that has not been left
can take a step, whatever the questions are answered with.
-/

namespace MarineDelivery.Progress

open MarineDelivery.Processes MarineDelivery.WorkerPool MarineDelivery.WorkerPool.Status

/-! ### One step more -/

lemma run_append {σ α : Type} (step : σ → α → Option σ) (s : σ) (labels more : List α) :
    run step s (labels ++ more) = (run step s labels).bind fun s' => run step s' more := by
  induction labels generalizing s with
  | nil => rfl
  | cons a labels ih =>
      rw [List.cons_append, run, run, Option.bind_assoc]
      exact Option.bind_congr fun s' _ => ih s'

lemma run_concat {σ α : Type} {step : σ → α → Option σ} {s s' s'' : σ} {labels : List α} {a : α}
    (h : run step s labels = some s') (hstep : step s' a = some s'') :
    run step s (labels ++ [a]) = some s'' := by
  induction labels generalizing s with
  | nil =>
      cases h
      rw [List.nil_append, run, hstep]
      rfl
  | cons b labels ih =>
      obtain ⟨s₁, hs, h⟩ := Option.bind_eq_some_iff.mp h
      rw [List.cons_append, run, hs]
      exact ih h

/-! ### Processes that ask a bounded number of questions -/

variable {Q R ρ σ : Type}

def AsksAtMost (n : ℕ) (p : Process Q R ρ) : Prop := ∀ log p', Leads p log p' → log.length ≤ n

lemma asksAtMost_done (n : ℕ) (r : ρ) : AsksAtMost n (.done r : Process Q R ρ) := by
  intro log p' h
  rw [(leads_done h).1]
  exact Nat.zero_le n

lemma asksAtMost_ask {n : ℕ} {q : Q} {next : R → Process Q R ρ}
    (h : ∀ a, AsksAtMost n (next a)) : AsksAtMost (n + 1) (.ask q next) := by
  intro log p' hlead
  cases hlead with
  | refl => exact Nat.zero_le _
  | ask q next a hlead => exact Nat.succ_le_succ (h a _ _ hlead)

lemma AsksAtMost.map {n : ℕ} {p : Process Q R ρ} (h : AsksAtMost n p) (f : ρ → σ) :
    AsksAtMost n (p.map f) := by
  intro log p' hlead
  obtain ⟨p₀, h₀, -⟩ := leads_map hlead
  exact h _ _ h₀

/-! ### Counting the steps -/

/-- The steps a task has taken, its collection apart. -/
def moves : Status Q R ρ → ℕ
  | .queued => 0
  | .running log _ _ asked => 2 * log.length + 1 + asked.toNat
  | .finished log _ => 2 * log.length + 1

lemma moves_reached (log : List (Q × R)) (p : Process Q R ρ) :
    moves (reached log p) = 2 * log.length + 1 := by
  cases p <;> rfl

lemma moves_le {n : ℕ} {p : Process Q R ρ} (hp : AsksAtMost n p) {s : Status Q R ρ}
    (hs : s.Follows p) : moves s ≤ 2 * n + 2 := by
  cases s with
  | queued => exact Nat.zero_le _
  | running log q next asked =>
      have hlog := hp _ _ hs
      have hasked := asked.toNat_le
      simp only [moves]
      omega
  | finished log r =>
      have hlog := hp _ _ hs
      simp only [moves]
      omega

variable {τ : Type} [DecidableEq τ] {setup : Setup τ Q R ρ} {pool pool' : Pool τ Q R ρ}

/-- The steps of all tasks, and of the collection. -/
def steps (setup : Setup τ Q R ρ) (pool : Pool τ Q R ρ) : ℕ :=
  ∑ t ∈ setup.tasks.toFinset, moves (pool.status t) + pool.collected.length

lemma sum_moves_update {t : τ} (ht : t ∈ setup.tasks) (status : τ → Status Q R ρ)
    {s : Status Q R ρ} (hs : moves s = moves (status t) + 1) :
    ∑ u ∈ setup.tasks.toFinset, moves (Function.update status t s u) =
      ∑ u ∈ setup.tasks.toFinset, moves (status u) + 1 := by
  have hmem := List.mem_toFinset.mpr ht
  have hother : ∑ u ∈ setup.tasks.toFinset.erase t, moves (Function.update status t s u) =
      ∑ u ∈ setup.tasks.toFinset.erase t, moves (status u) := by
    refine Finset.sum_congr rfl fun u hu => ?_
    rw [Function.update_of_ne (Finset.ne_of_mem_erase hu)]
  rw [← Finset.add_sum_erase _ _ hmem, ← Finset.add_sum_erase _ (fun u => moves (status u)) hmem,
    hother, Function.update_self, hs]
  omega

/-- **Every step counts.** -/
lemma steps_step (h : Sound setup pool) {label : Label τ R}
    (hstep : step setup pool label = some pool') : steps setup pool' = steps setup pool + 1 := by
  cases step_stepped hstep with
  | @start t ht hs =>
      have hmoves : moves (reached [] (setup.job t)) = moves (pool.status t) + 1 := by
        rw [moves_reached, eq_queued hs]
        rfl
      simp only [steps, sum_moves_update ht pool.status hmoves]
      omega
  | @ask t log q next hs =>
      have hmoves : moves (.running log q next true) = moves (pool.status t) + 1 := by
        rw [hs]
        rfl
      simp only [steps, sum_moves_update (h.mem_tasks hs) pool.status hmoves]
      omega
  | @answer t log q next a hs =>
      have hmoves : moves (reached (log ++ [(q, a)]) (next a)) =
          moves (pool.status t) + 1 := by
        rw [moves_reached, hs, List.length_append, List.length_singleton]
        rfl
      simp only [steps, sum_moves_update (h.mem_tasks hs) pool.status hmoves]
      omega
  | collect hs ht =>
      simp only [steps, List.length_append, List.length_singleton]
      omega

lemma steps_run (h : Sound setup pool) {labels : List (Label τ R)}
    (hrun : run (step setup) pool labels = some pool') :
    steps setup pool' = steps setup pool + labels.length := by
  induction labels generalizing pool with
  | nil =>
      cases hrun
      rfl
  | cons label labels ih =>
      obtain ⟨pool₁, hstep, hrun⟩ := Option.bind_eq_some_iff.mp hrun
      rw [ih (h.step hstep) hrun, steps_step h hstep, List.length_cons]
      omega

omit [DecidableEq τ] in
lemma length_collected_le (h : Sound setup pool) :
    pool.collected.length ≤ setup.tasks.length := by
  have hsub : pool.collected.map Prod.fst ⊆ setup.tasks := by
    intro t ht
    obtain ⟨x, hx, rfl⟩ := List.mem_map.mp ht
    obtain ⟨log, hlog⟩ := h.collected x hx
    exact h.known _ (by rw [hlog]; rfl)
  have hlength := (List.subperm_of_subset h.collected_nodup hsub).length_le
  rwa [List.length_map] at hlength

/-- No pool takes more steps than its processes allow. -/
lemma steps_le {n : ℕ} (hn : ∀ t ∈ setup.tasks, AsksAtMost n (setup.job t))
    (h : Sound setup pool) : steps setup pool ≤ setup.tasks.length * (2 * n + 3) := by
  have hsum : ∑ t ∈ setup.tasks.toFinset, moves (pool.status t) ≤
      setup.tasks.toFinset.card * (2 * n + 2) :=
    Finset.sum_le_card_nsmul _ _ _ fun t ht =>
      moves_le (hn t (List.mem_toFinset.mp ht)) (h.follows t)
  have hcard : setup.tasks.toFinset.card = setup.tasks.length :=
    List.toFinset_card_of_nodup setup.nodup
  have hcollected := length_collected_le h
  calc steps setup pool ≤ setup.tasks.length * (2 * n + 2) + setup.tasks.length :=
        Nat.add_le_add (hcard ▸ hsum) hcollected
    _ = setup.tasks.length * (2 * n + 3) := by ring

/-- **Runs are bounded** by what the processes ask. -/
theorem run_length_le {n : ℕ} (hn : ∀ t ∈ setup.tasks, AsksAtMost n (setup.job t))
    {labels : List (Label τ R)} (hrun : run (step setup) {} labels = some pool) :
    labels.length ≤ setup.tasks.length * (2 * n + 3) := by
  have hsteps := steps_run (sound_initial setup) hrun
  calc labels.length ≤ steps setup pool := by omega
    _ ≤ setup.tasks.length * (2 * n + 3) := steps_le hn (sound_of_run hrun)

/-! ### Going on -/

/-- Every question has been answered as the oracle answers it. -/
def Obeys (oracle : Q → R) (pool : Pool τ Q R ρ) : Prop :=
  ∀ x ∈ pool.trace.filterMap Move.answered?, x.2 = oracle x.1

omit [DecidableEq τ] in
lemma obeys_initial (oracle : Q → R) : Obeys oracle ({} : Pool τ Q R ρ) := by
  intro x hx
  cases hx

/-- A running task asks, or is answered. -/
lemma exists_step_of_running (oracle : Q → R) {t : τ} {log : List (Q × R)} {q : Q}
    {next : R → Process Q R ρ} {asked : Bool} (hs : pool.status t = .running log q next asked) :
    ∃ label pool', step setup pool label = some pool' ∧
      (Obeys oracle pool → Obeys oracle pool') := by
  cases asked with
  | false =>
      refine ⟨.ask t, _, by rw [step, hs], fun hobeys x hx => hobeys x ?_⟩
      simpa [Move.answered?] using hx
  | true =>
      refine ⟨.answer t (oracle q), _, by rw [step, hs], fun hobeys x hx => ?_⟩
      simp only [List.filterMap_append, List.filterMap_cons, List.filterMap_nil,
        Move.answered?, List.mem_append, List.mem_singleton] at hx
      rcases hx with hx | rfl
      · exact hobeys x hx
      · rfl

/-- When all tasks are finished and the pool cannot be left, a result is there to be collected. -/
lemma exists_step_of_finished (oracle : Q → R)
    (hfinished : ∀ t ∈ setup.tasks, (pool.status t).isFinished = true)
    (hexit : ¬ Exited setup pool) :
    ∃ label pool', step setup pool label = some pool' ∧
      (Obeys oracle pool → Obeys oracle pool') := by
  have hcollect : ¬ ((∀ t ∈ setup.tasks, t ∈ pool.collected.map Prod.fst) ∨
      stopped setup pool = true) := fun hall => hexit ⟨hfinished, hall⟩
  rw [not_or, not_forall] at hcollect
  obtain ⟨⟨t, ht⟩, hstopped⟩ := hcollect
  obtain ⟨ht, hnot⟩ := Classical.not_imp.mp ht
  cases hs : pool.status t with
  | queued | running log q next asked =>
      have hf := hfinished t ht
      rw [hs] at hf
      cases hf
  | finished log r =>
      refine ⟨.collect t, { pool with collected := pool.collected ++ [(t, r)] }, ?_, id⟩
      rw [step, hs]
      exact if_pos ⟨hnot, Bool.eq_false_iff.mpr hstopped⟩

/-- **No pool is stuck** before it can be left. -/
theorem exists_step (hworkers : 0 < setup.workers) (hexit : ¬ Exited setup pool)
    (oracle : Q → R) :
    ∃ label pool', step setup pool label = some pool' ∧
      (Obeys oracle pool → Obeys oracle pool') := by
  by_cases hrunning : ∃ t, (pool.status t).isRunning = true
  · obtain ⟨t, ht⟩ := hrunning
    cases hs : pool.status t with
    | queued | finished log r =>
        rw [hs] at ht
        cases ht
    | running log q next asked => exact exists_step_of_running oracle hs
  · have hbusy : busy setup pool = 0 :=
      List.countP_eq_zero.mpr fun t _ ht => hrunning ⟨t, ht⟩
    cases hnext : nextQueued setup pool with
    | some t =>
        exact ⟨.start t, _, if_pos ⟨hnext, hbusy ▸ hworkers⟩, id⟩
    | none =>
        refine exists_step_of_finished oracle (fun t ht => ?_) hexit
        have hq := List.find?_eq_none.mp hnext t ht
        cases hs : pool.status t with
        | queued =>
            rw [hs] at hq
            exact absurd rfl hq
        | running log q next asked => exact absurd ⟨t, by rw [hs]; rfl⟩ hrunning
        | finished log r => rfl

/-- A run that obeys the oracle, of any length up to the end. -/
lemma exists_run (hworkers : 0 < setup.workers) (oracle : Q → R) (k : ℕ) :
    ∃ labels pool, run (step setup) {} labels = some pool ∧ Obeys oracle pool ∧
      (Exited setup pool ∨ labels.length = k) := by
  induction k with
  | zero => exact ⟨[], {}, rfl, obeys_initial oracle, .inr rfl⟩
  | succ k ih =>
      obtain ⟨labels, pool, hrun, hobeys, hend⟩ := ih
      by_cases hexit : Exited setup pool
      · exact ⟨labels, pool, hrun, hobeys, .inl hexit⟩
      · obtain ⟨label, pool', hstep, hkeep⟩ := exists_step hworkers hexit oracle
        refine ⟨labels ++ [label], pool', ?_, hkeep hobeys, .inr ?_⟩
        · exact run_concat hrun hstep
        · rw [List.length_append, List.length_singleton, hend.resolve_left hexit]

/-- **There is an end**, whatever the questions are answered with. -/
theorem exists_exited {n : ℕ} (hworkers : 0 < setup.workers)
    (hn : ∀ t ∈ setup.tasks, AsksAtMost n (setup.job t)) (oracle : Q → R) :
    ∃ labels pool, run (step setup) {} labels = some pool ∧ Obeys oracle pool ∧
      Exited setup pool := by
  obtain ⟨labels, pool, hrun, hobeys, hend⟩ :=
    exists_run hworkers oracle (setup.tasks.length * (2 * n + 3) + 1)
  refine ⟨labels, pool, hrun, hobeys, hend.resolve_right fun hlength => ?_⟩
  have hbound := run_length_le hn hrun
  omega

end MarineDelivery.Progress
