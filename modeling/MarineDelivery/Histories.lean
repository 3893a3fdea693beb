import MarineDelivery.Progress

/-!
What a pool shows of each of its tasks.

A pool never runs more tasks than it has workers, so that no more questions are out than that.
Where every question tells which task asks it, the trace of the pool shows each task alone as
its process would: the questions one after the other, the answer of each before the next.
-/

namespace MarineDelivery.Histories

open MarineDelivery.Processes MarineDelivery.WorkerPool MarineDelivery.WorkerPool.Status

variable {τ Q R ρ κ : Type} [DecidableEq τ]
variable {setup : Setup τ Q R ρ} {pool pool' : Pool τ Q R ρ}

/-! ### The workers -/

/-- The running tasks before and after one task moves. -/
lemma busy_update {t : τ} (ht : t ∈ setup.tasks) {s : Status Q R ρ}
    (hstatus : pool'.status = Function.update pool.status t s) :
    busy setup pool' + (pool.status t).isRunning.toNat =
      busy setup pool + s.isRunning.toNat := by
  obtain ⟨u, v, huv⟩ := List.append_of_mem ht
  have hn : (u ++ t :: v).Nodup := huv ▸ setup.nodup
  have hu : t ∉ u := fun h => (List.nodup_append.mp hn).2.2 t h t List.mem_cons_self rfl
  have hv : t ∉ v := (List.nodup_cons.mp (List.nodup_append.mp hn).2.1).1
  have hother : ∀ w : List τ, t ∉ w →
      (w.countP fun x => (Function.update pool.status t s x).isRunning) =
        w.countP fun x => (pool.status x).isRunning := by
    intro w hw
    refine List.countP_congr fun x hx => ?_
    rw [Function.update_of_ne (by rintro rfl; exact hw hx)]
  have htoNat : ∀ b : Bool, (if b = true then 1 else 0) = b.toNat := by decide
  simp only [busy, hstatus, huv, List.countP_append, List.countP_cons, hother u hu, hother v hv,
    Function.update_self, htoNat]
  omega

lemma busy_step (hsound : Sound setup pool) (h : busy setup pool ≤ setup.workers)
    {label : Label τ R} (hstep : step setup pool label = some pool') :
    busy setup pool' ≤ setup.workers := by
  cases label with
  | start t =>
      rw [step] at hstep
      split_ifs at hstep with hc
      obtain ⟨hnext, hfree⟩ := hc
      have hstatus := congrArg Pool.status (Option.some.inj hstep).symm
      have hcount := busy_update (List.mem_of_find?_eq_some hnext) hstatus
      have hone := (reached [] (setup.job t)).isRunning.toNat_le
      omega
  | ask t =>
      rw [step] at hstep
      split at hstep
      · next log q next hs =>
          have hstatus := congrArg Pool.status (Option.some.inj hstep).symm
          have hcount := busy_update (hsound.mem_tasks hs) hstatus
          rw [hs] at hcount
          exact (Nat.add_right_cancel hcount).le.trans h
      · cases hstep
  | answer t a =>
      rw [step] at hstep
      split at hstep
      · next log q next hs =>
          have hstatus := congrArg Pool.status (Option.some.inj hstep).symm
          have hcount := busy_update (hsound.mem_tasks hs) hstatus
          have hone := (reached (log ++ [(q, a)]) (next a)).isRunning.toNat_le
          have hself : (Status.running log q next true).isRunning.toNat = 1 := rfl
          rw [hs] at hcount
          omega
      · cases hstep
  | collect t =>
      rw [step] at hstep
      split at hstep
      · split_ifs at hstep
        cases hstep
        exact h
      · cases hstep

/-- **No more tasks run than there are workers.** -/
theorem busy_le {labels : List (Label τ R)} (h : run (step setup) {} labels = some pool) :
    busy setup pool ≤ setup.workers := by
  have hkeep : ∀ p a p', Sound setup p ∧ busy setup p ≤ setup.workers →
      step setup p a = some p' → Sound setup p' ∧ busy setup p' ≤ setup.workers :=
    fun p a p' hp hstep => ⟨hp.1.step hstep, busy_step hp.1 hp.2 hstep⟩
  have hzero : busy setup ({} : Pool τ Q R ρ) = 0 :=
    List.countP_eq_zero.mpr fun _ _ h => by cases h
  exact (run_invariant _ hkeep ⟨sound_initial setup, hzero ▸ Nat.zero_le _⟩ h).2

omit [DecidableEq τ] in
lemma length_inFlight_le : (inFlight setup pool.status).length ≤ busy setup pool := by
  rw [inFlight, List.length_filterMap_eq_countP, busy]
  refine List.countP_mono_left fun t _ ht => ?_
  cases hs : pool.status t with
  | queued | finished log r =>
      rw [hs] at ht
      cases ht
  | running log q next asked => rfl

/-! ### One task alone -/

def Move.question : Move Q R → Q
  | .asked q => q
  | .answered q _ => q

/-- What a finished exchange looks like in a trace. -/
def exchanged (log : List (Q × R)) : List (Move Q R) :=
  log.flatMap fun x => [.asked x.1, .answered x.1 x.2]

/-- What a trace shows of a task. -/
def Status.history : Status Q R ρ → List (Move Q R)
  | .queued => []
  | .running log q _ asked => exchanged log ++ if asked then [.asked q] else []
  | .finished log _ => exchanged log

lemma exchanged_concat (log : List (Q × R)) (q : Q) (a : R) :
    exchanged (log ++ [(q, a)]) = exchanged log ++ [.asked q, .answered q a] := by
  rw [exchanged, List.flatMap_append]
  rfl

lemma history_reached (log : List (Q × R)) (p : Process Q R ρ) :
    Status.history (reached log p) = exchanged log := by
  cases p with
  | done r => rfl
  | ask q next => exact List.append_nil _

/-- Every question tells which task asks it. -/
structure Owned [DecidableEq κ] (setup : Setup τ Q R ρ) (name : τ → κ) (owner : Q → κ) :
    Prop where
  inj : ∀ t ∈ setup.tasks, ∀ u ∈ setup.tasks, name t = name u → t = u
  asks : ∀ t ∈ setup.tasks, ∀ log q next, Leads (setup.job t) log (.ask q next) →
    owner q = name t

variable [DecidableEq κ] {name : τ → κ} {owner : Q → κ}

/-- The trace shows every task alone, and nothing but tasks. -/
structure Shows (setup : Setup τ Q R ρ) (name : τ → κ) (owner : Q → κ) (pool : Pool τ Q R ρ) :
    Prop where
  task : ∀ t ∈ setup.tasks,
    (pool.trace.filter fun m => owner (Move.question m) = name t) =
      Status.history (pool.status t)
  owned : ∀ m ∈ pool.trace, ∃ t ∈ setup.tasks, owner (Move.question m) = name t

/-- A task moves, and the trace shows it. -/
lemma Shows.update (howned : Owned setup name owner) (h : Shows setup name owner pool) {t : τ}
    (ht : t ∈ setup.tasks) {s : Status Q R ρ} {moves : List (Move Q R)}
    (hmoves : ∀ m ∈ moves, owner (Move.question m) = name t)
    (hs : Status.history s = Status.history (pool.status t) ++ moves) :
    Shows setup name owner { pool with
      status := Function.update pool.status t s
      trace := pool.trace ++ moves } where
  task u hu := by
    rw [List.filter_append, h.task u hu]
    by_cases hut : u = t
    · subst hut
      have hall : (moves.filter fun m => owner (Move.question m) = name u) = moves :=
        List.filter_eq_self.mpr fun m hm => decide_eq_true (hmoves m hm)
      simp only [hall, Function.update_self, hs]
    · have hnone : (moves.filter fun m => owner (Move.question m) = name u) = [] := by
        refine List.filter_eq_nil_iff.mpr fun m hm hown => hut ?_
        exact howned.inj u hu t ht ((of_decide_eq_true hown).symm.trans (hmoves m hm))
      simp only [hnone, List.append_nil, Function.update_of_ne hut]
  owned m hm := by
    rcases List.mem_append.mp hm with hm | hm
    · exact h.owned m hm
    · exact ⟨t, ht, hmoves m hm⟩

lemma Shows.step (howned : Owned setup name owner) (hsound : Sound setup pool)
    (h : Shows setup name owner pool) {label : Label τ R}
    (hstep : WorkerPool.step setup pool label = some pool') : Shows setup name owner pool' := by
  cases step_stepped hstep with
  | @start t ht hs =>
      have hhistory : Status.history (reached [] (setup.job t)) =
          Status.history (pool.status t) ++ [] := by
        rw [history_reached, eq_queued hs]
        rfl
      have hupdate := h.update howned ht (by simp) hhistory
      rwa [List.append_nil] at hupdate
  | @ask t log q next hs =>
      have ht := hsound.mem_tasks hs
      have hfollows := hsound.follows t
      rw [hs] at hfollows
      refine h.update howned ht (fun m hm => ?_) ?_
      · rw [List.mem_singleton.mp hm]
        exact howned.asks t ht log q next hfollows
      · rw [hs]
        exact congrArg (· ++ _) (List.append_nil _).symm
  | @answer t log q next a hs =>
      have ht := hsound.mem_tasks hs
      have hfollows := hsound.follows t
      rw [hs] at hfollows
      refine h.update howned ht (fun m hm => ?_) ?_
      · rw [List.mem_singleton.mp hm]
        exact howned.asks t ht log q next hfollows
      · rw [history_reached, exchanged_concat, hs]
        exact (List.append_assoc _ [_] [_]).symm
  | collect hs ht => exact ⟨h.task, h.owned⟩

/-- **The trace shows every task alone**, however the tasks are interleaved. -/
theorem shows_of_run (howned : Owned setup name owner) {labels : List (Label τ R)}
    (h : run (WorkerPool.step setup) {} labels = some pool) : Shows setup name owner pool := by
  have hkeep : ∀ p a p', Sound setup p ∧ Shows setup name owner p →
      WorkerPool.step setup p a = some p' → Sound setup p' ∧ Shows setup name owner p' :=
    fun p a p' hp hstep => ⟨hp.1.step hstep, hp.2.step howned hp.1 hstep⟩
  have hinit : Shows setup name owner {} := ⟨fun _ _ => rfl, fun m hm => by cases hm⟩
  exact (run_invariant _ hkeep ⟨sound_initial setup, hinit⟩ h).2

end MarineDelivery.Histories
