import MarineDelivery.Progress

/-!
Schedules of a pool.

Where there is a worker at all, one schedule is always possible: the tasks are served one after
the other, and their results are collected when all are finished, in whatever order. So a pool
can give every result that its processes can give, however many workers it has.
-/

namespace MarineDelivery.Schedules

open MarineDelivery.Processes MarineDelivery.WorkerPool MarineDelivery.WorkerPool.Status
open MarineDelivery.Progress

variable {τ Q R ρ : Type}

/-- The questions and answers of an exchange, as they are traced. -/
def moves (log : List (Q × R)) : List (Move Q R) :=
  log.flatMap fun x => [.asked x.1, .answered x.1 x.2]

/-- A task that has been started is asked and answered to its end. -/
def serving (t : τ) : Process Q R ρ → (ℕ → R) → List (WorkerPool.Label τ R)
  | .done _, _ => []
  | .ask _ next, answers =>
    .ask t :: .answer t (answers 0) :: serving t (next (answers 0)) fun n => answers (n + 1)

lemma answered_moves (log : List (Q × R)) :
    (moves log).filterMap Move.answered? = log := by
  induction log with
  | nil => rfl
  | cons x log ih =>
      show x :: (moves log).filterMap Move.answered? = x :: log
      rw [ih]

variable [DecidableEq τ] {setup : Setup τ Q R ρ} {answers : τ → ℕ → R}

/-! ### One task after the other -/

/-- A process that has come anywhere is brought to its end. -/
lemma run_serving (t : τ) (p : Process Q R ρ) (answer : ℕ → R) {pool : Pool τ Q R ρ}
    {log : List (Q × R)} (hs : pool.status t = reached log p) :
    run (step setup) pool (serving t p answer) = some { pool with
      status := Function.update pool.status t
        (.finished (log ++ p.exchange answer) (p.result answer))
      trace := pool.trace ++ moves (p.exchange answer) } := by
  induction p generalizing answer pool log with
  | done r =>
      have hsame : Function.update pool.status t (.finished log r) = pool.status :=
        Function.update_eq_self_iff.mpr hs.symm
      show some pool = _
      simp only [Process.exchange, Process.result, moves, List.flatMap_nil, List.append_nil, hsame]
  | ask q next ih =>
      have hask : step setup pool (.ask t) = some { pool with
          status := Function.update pool.status t (.running log q next true)
          trace := pool.trace ++ [.asked q] } := by
        simp only [step, hs, reached]
      have hanswer : step setup { pool with
          status := Function.update pool.status t (.running log q next true)
          trace := pool.trace ++ [.asked q] } (.answer t (answer 0)) = some { pool with
            status := Function.update pool.status t
              (reached (log ++ [(q, answer 0)]) (next (answer 0)))
            trace := pool.trace ++ [.asked q, .answered q (answer 0)] } := by
        simp only [step, Function.update_self, Function.update_idem, List.append_assoc,
          List.cons_append, List.nil_append]
      rw [serving, run, hask, Option.bind_some, run, hanswer, Option.bind_some]
      rw [ih (answer 0) (fun n => answer (n + 1)) (Function.update_self ..)]
      simp only [Function.update_idem, Process.exchange, Process.result, moves,
        List.flatMap_cons, List.append_assoc, List.cons_append, List.nil_append]

def served (setup : Setup τ Q R ρ) (answers : τ → ℕ → R) (done : List τ) : Pool τ Q R ρ where
  status t :=
    if t ∈ done then
      .finished ((setup.job t).exchange (answers t)) ((setup.job t).result (answers t))
    else .queued
  trace := done.flatMap fun t => moves ((setup.job t).exchange (answers t))

lemma served_nil : served setup answers [] = {} := by
  simp [served]

lemma status_served {done : List τ} {t : τ} (ht : t ∈ done) :
    (served setup answers done).status t =
      .finished ((setup.job t).exchange (answers t)) ((setup.job t).result (answers t)) :=
  if_pos ht

lemma busy_served (done : List τ) : busy setup (served setup answers done) = 0 := by
  refine List.countP_eq_zero.mpr fun t _ => ?_
  dsimp only [served]
  split_ifs <;> exact Bool.false_ne_true

lemma run_task {done rest : List τ} {t : τ} (hw : 0 < setup.workers)
    (htasks : setup.tasks = done ++ t :: rest) :
    run (step setup) (served setup answers done)
      (.start t :: serving t (setup.job t) (answers t)) =
        some (served setup answers (done ++ [t])) := by
  have hnew : t ∉ done := by
    have hnodup := setup.nodup
    rw [htasks] at hnodup
    intro ht
    exact List.disjoint_of_nodup_append hnodup ht List.mem_cons_self
  have hqueued : (served setup answers done).status t = .queued := if_neg hnew
  have hnext : nextQueued setup (served setup answers done) = some t := by
    have hdone : done.find? (fun t => ((served setup answers done).status t).isQueued) = none := by
      refine List.find?_eq_none.mpr fun x hx => ?_
      rw [status_served hx]
      exact Bool.false_ne_true
    rw [nextQueued, htasks, List.find?_append, hdone, Option.none_or]
    exact List.find?_cons_of_pos (by rw [hqueued]; rfl)
  have hstart : step setup (served setup answers done) (.start t) =
      some { served setup answers done with
        status := Function.update (served setup answers done).status t
          (reached [] (setup.job t)) } := by
    rw [step, if_pos ⟨hnext, by rw [busy_served]; exact hw⟩]
  rw [run, hstart, Option.bind_some, run_serving _ _ _ (Function.update_self ..)]
  refine congrArg some ?_
  simp only [Function.update_idem, List.nil_append]
  unfold served
  simp only [List.flatMap_append, List.flatMap_singleton, Pool.mk.injEq, and_true]
  ext x
  by_cases hx : x = t
  · subst hx
    rw [Function.update_self, if_pos (by simp)]
  · rw [Function.update_of_ne hx]
    simp [hx]

lemma run_tasks (hw : 0 < setup.workers) (rest : List τ) {done : List τ}
    (htasks : setup.tasks = done ++ rest) :
    ∃ labels, run (step setup) (served setup answers done) labels =
      some (served setup answers setup.tasks) := by
  induction rest generalizing done with
  | nil =>
      rw [List.append_nil] at htasks
      exact ⟨[], by rw [run, htasks]⟩
  | cons t rest ih =>
      obtain ⟨labels, hlabels⟩ := ih (htasks.trans (List.append_cons ..))
      refine ⟨(.start t :: serving t (setup.job t) (answers t)) ++ labels, ?_⟩
      rw [run_append, run_task hw htasks]
      exact hlabels

/-! ### The collection -/

def results (setup : Setup τ Q R ρ) (answers : τ → ℕ → R) (l : List τ) : List (τ × ρ) :=
  l.map fun t => (t, (setup.job t).result (answers t))

omit [DecidableEq τ] in
lemma map_fst_results (l : List τ) : (results setup answers l).map Prod.fst = l := by
  rw [results, List.map_map]
  exact List.map_id l

/-- The results are collected in the given order, up to a failure. -/
lemma run_collect (answers : τ → ℕ → R) (got rest : List τ) (hnodup : (got ++ rest).Nodup)
    (hrest : ∀ t ∈ rest, t ∈ setup.tasks) :
    ∃ labels init, got <+: init ∧ init <+: got ++ rest ∧
      run (step setup) { served setup answers setup.tasks with
        collected := results setup answers got } labels =
          some { served setup answers setup.tasks with
            collected := results setup answers init } ∧
      (init = got ++ rest ∨ stopped setup { served setup answers setup.tasks with
        collected := results setup answers init } = true) := by
  induction rest generalizing got with
  | nil => exact ⟨[], got, List.prefix_refl _, by simp, rfl, Or.inl (List.append_nil _).symm⟩
  | cons t rest ih =>
      by_cases hstop : stopped setup { served setup answers setup.tasks with
          collected := results setup answers got } = true
      · exact ⟨[], got, List.prefix_refl _, List.prefix_append _ _, rfl, Or.inr hstop⟩
      · have happ : got ++ t :: rest = (got ++ [t]) ++ rest := List.append_cons ..
        have ht : t ∉ (results setup answers got).map Prod.fst := by
          rw [map_fst_results]
          intro hmem
          exact List.disjoint_of_nodup_append hnodup hmem List.mem_cons_self
        have hstep : step setup { served setup answers setup.tasks with
              collected := results setup answers got } (.collect t) =
            some { served setup answers setup.tasks with
              collected := results setup answers (got ++ [t]) } := by
          have hfinished : (served setup answers setup.tasks).status t = _ :=
            status_served (hrest t List.mem_cons_self)
          simp only [step, hfinished]
          rw [if_pos ⟨ht, Bool.eq_false_iff.mpr hstop⟩]
          simp only [results, List.map_append, List.map_cons, List.map_nil]
        obtain ⟨labels, init, hgot, hinit, hrun, hend⟩ :=
          ih (got ++ [t]) (happ ▸ hnodup) fun x hx => hrest x (List.mem_cons_of_mem _ hx)
        refine ⟨.collect t :: labels, init, (List.prefix_append _ _).trans hgot, happ ▸ hinit, ?_,
          happ ▸ hend⟩
        rw [run, hstep]
        exact hrun

/-- **Every answer and every order**: whatever the tasks are answered, and in whatever order
their results are to be collected, a pool with a worker can be left in this way. -/
theorem exists_left (hw : 0 < setup.workers) (answers : τ → ℕ → R) {completed : List τ}
    (hperm : completed.Perm setup.tasks) :
    ∃ labels pool init, run (step setup) {} labels = some pool ∧ Exited setup pool ∧
      pool.collected = results setup answers init ∧ init <+: completed ∧
      (completed = init ∨ stopped setup pool = true) ∧
      ∀ x, x ∈ pool.trace.filterMap Move.answered? ↔
        ∃ t ∈ setup.tasks, x ∈ (setup.job t).exchange (answers t) := by
  obtain ⟨serve, hserve⟩ : ∃ labels, run (step setup) (served setup answers []) labels =
      some (served setup answers setup.tasks) := run_tasks hw setup.tasks rfl
  obtain ⟨collect, init, -, hinit, hcollect, hend⟩ := run_collect answers [] completed
    (hperm.nodup_iff.mpr setup.nodup) fun t ht => hperm.mem_iff.mp ht
  rw [served_nil] at hserve
  rw [List.nil_append] at hinit hend
  refine ⟨serve ++ collect, _, init, ?_, ⟨fun t ht => ?_, ?_⟩, rfl, hinit,
    hend.imp_left Eq.symm, fun x => ?_⟩
  · rw [run_append, hserve]
    exact hcollect
  · show ((served setup answers setup.tasks).status t).isFinished = true
    rw [status_served ht]
    rfl
  · refine hend.imp_left fun hall t ht => ?_
    rw [map_fst_results, hall]
    exact hperm.mem_iff.mpr ht
  · simp only [served, List.filterMap_flatMap, answered_moves, List.mem_flatMap]

end MarineDelivery.Schedules
