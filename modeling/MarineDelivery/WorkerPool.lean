import Mathlib.Data.List.Nodup
import Mathlib.Data.List.Perm.Basic
import Mathlib.Logic.Function.Basic
import MarineDelivery.Processes

/-!
A pool of workers that runs processes.

A task waits until a worker takes it; the worker asks what the process of the task asks, one
question after the other, and the answers come when they come. The results of finished tasks
are collected one by one, in any order, until one of them is a failure; the pool is left when
every task is finished. `exited_run` says what is then known: the pool has done what the
processes do with some answers.
-/

namespace MarineDelivery.WorkerPool

open MarineDelivery.Processes

/-! ### Runs of machines -/

section Machine

variable {σ α : Type} (step : σ → α → Option σ)

/-- The labels one after the other. -/
def run (s : σ) : List α → Option σ
  | [] => some s
  | a :: labels => (step s a).bind fun s' => run s' labels

/-- **The invariant rule**: what every step keeps, every run keeps. -/
theorem run_invariant {Inv : σ → Prop}
    (hstep : ∀ s a s', Inv s → step s a = some s' → Inv s') {labels : List α} {s s' : σ}
    (hs : Inv s) (h : run step s labels = some s') : Inv s' := by
  induction labels generalizing s with
  | nil =>
      cases h
      exact hs
  | cons a labels ih =>
      obtain ⟨s₁, h₁, h⟩ := Option.bind_eq_some_iff.mp h
      exact ih (hstep s a s₁ hs h₁) h

end Machine

/-! ### Pools -/

/-- The tasks of a pool, their processes, the number of workers, and the results that end the
collection. -/
structure Setup (τ Q R ρ : Type) where
  tasks : List τ
  nodup : tasks.Nodup
  job : τ → Process Q R ρ
  workers : ℕ
  failing : ρ → Bool

/-- A task with what it has been answered so far; `asked` says that its question is out. -/
inductive Status (Q R ρ : Type)
  | queued
  | running (log : List (Q × R)) (q : Q) (next : R → Process Q R ρ) (asked : Bool)
  | finished (log : List (Q × R)) (r : ρ)

inductive Move (Q R : Type)
  | asked (q : Q)
  | answered (q : Q) (a : R)

structure Pool (τ Q R ρ : Type) where
  status : τ → Status Q R ρ := fun _ => .queued
  collected : List (τ × ρ) := []
  trace : List (Move Q R) := []

inductive Label (τ R : Type)
  | start (t : τ)
  | ask (t : τ)
  | answer (t : τ) (a : R)
  | collect (t : τ)

variable {τ Q R ρ : Type} [DecidableEq τ]

namespace Status

/-- A task whose process has come this far. -/
def reached (log : List (Q × R)) : Process Q R ρ → Status Q R ρ
  | .done r => .finished log r
  | .ask q next => .running log q next false

def isQueued : Status Q R ρ → Bool
  | .queued => true
  | _ => false

def isRunning : Status Q R ρ → Bool
  | .running .. => true
  | _ => false

def isFinished : Status Q R ρ → Bool
  | .finished .. => true
  | _ => false

def log : Status Q R ρ → List (Q × R)
  | .queued => []
  | .running log .. => log
  | .finished log _ => log

/-- The question that is out. -/
def pending : Status Q R ρ → Option Q
  | .running _ q _ true => some q
  | _ => none

/-- The task is where its process can be after the log. -/
def Follows (p : Process Q R ρ) : Status Q R ρ → Prop
  | .queued => True
  | .running log q next _ => Leads p log (.ask q next)
  | .finished log r => Leads p log (.done r)

lemma follows_reached {p p' : Process Q R ρ} {log : List (Q × R)} (h : Leads p log p') :
    Follows p (reached log p') := by
  cases p' <;> exact h

lemma log_reached (log : List (Q × R)) (p : Process Q R ρ) : (reached log p).log = log := by
  cases p <;> rfl

lemma pending_reached (log : List (Q × R)) (p : Process Q R ρ) :
    (reached log p).pending = none := by
  cases p <;> rfl

end Status

namespace Move

def asked? : Move Q R → Option Q
  | .asked q => some q
  | .answered _ _ => none

def answered? : Move Q R → Option (Q × R)
  | .asked _ => none
  | .answered q a => some (q, a)

end Move

open Status

section

variable (setup : Setup τ Q R ρ) (pool : Pool τ Q R ρ)

/-- Workers take the tasks in the order in which they were submitted. -/
def nextQueued : Option τ := setup.tasks.find? fun t => (pool.status t).isQueued

def busy : ℕ := setup.tasks.countP fun t => (pool.status t).isRunning

/-- A failure has been collected. -/
def stopped : Bool := pool.collected.any fun x => setup.failing x.2

/-- The questions that are out. -/
def inFlight (status : τ → Status Q R ρ) : List Q :=
  setup.tasks.filterMap fun t => (status t).pending

def step : Label τ R → Option (Pool τ Q R ρ)
  | .start t =>
    if nextQueued setup pool = some t ∧ busy setup pool < setup.workers then
      some { pool with
        status := Function.update pool.status t (reached [] (setup.job t)) }
    else none
  | .ask t =>
    match pool.status t with
    | .running log q next false =>
      some { pool with
        status := Function.update pool.status t (.running log q next true)
        trace := pool.trace ++ [.asked q] }
    | _ => none
  | .answer t a =>
    match pool.status t with
    | .running log q next true =>
      some { pool with
        status := Function.update pool.status t (reached (log ++ [(q, a)]) (next a))
        trace := pool.trace ++ [.answered q a] }
    | _ => none
  | .collect t =>
    match pool.status t with
    | .finished _ r =>
      if t ∉ pool.collected.map Prod.fst ∧ stopped setup pool = false then
        some { pool with collected := pool.collected ++ [(t, r)] }
      else none
    | _ => none

/-- Every task is finished, and its result collected unless a failure came before. -/
def Exited : Prop :=
  (∀ t ∈ setup.tasks, (pool.status t).isFinished = true) ∧
  ((∀ t ∈ setup.tasks, t ∈ pool.collected.map Prod.fst) ∨ stopped setup pool = true)

instance : Decidable (Exited setup pool) := inferInstanceAs (Decidable (_ ∧ _))

end

/-! ### What a step does -/

/-- The four steps. -/
inductive Stepped (setup : Setup τ Q R ρ) (pool : Pool τ Q R ρ) : Pool τ Q R ρ → Prop
  | start {t : τ} (ht : t ∈ setup.tasks) (hs : (pool.status t).isQueued = true) :
      Stepped setup pool { pool with
        status := Function.update pool.status t (reached [] (setup.job t)) }
  | ask {t : τ} {log : List (Q × R)} {q : Q} {next : R → Process Q R ρ}
      (hs : pool.status t = .running log q next false) :
      Stepped setup pool { pool with
        status := Function.update pool.status t (.running log q next true)
        trace := pool.trace ++ [.asked q] }
  | answer {t : τ} {log : List (Q × R)} {q : Q} {next : R → Process Q R ρ} (a : R)
      (hs : pool.status t = .running log q next true) :
      Stepped setup pool { pool with
        status := Function.update pool.status t (reached (log ++ [(q, a)]) (next a))
        trace := pool.trace ++ [.answered q a] }
  | collect {t : τ} {log : List (Q × R)} {r : ρ} (hs : pool.status t = .finished log r)
      (ht : t ∉ pool.collected.map Prod.fst) :
      Stepped setup pool { pool with collected := pool.collected ++ [(t, r)] }

variable {setup : Setup τ Q R ρ} {pool pool' : Pool τ Q R ρ}

lemma step_stepped {label : Label τ R} (h : step setup pool label = some pool') :
    Stepped setup pool pool' := by
  cases label with
  | start t =>
      rw [step] at h
      split_ifs at h with hc
      cases h
      obtain ⟨hs, -⟩ := hc
      exact .start (List.mem_of_find?_eq_some hs)
        (List.find?_some (p := fun t => (pool.status t).isQueued) hs)
  | ask t =>
      rw [step] at h
      split at h
      · next log q next hs =>
          cases h
          exact .ask hs
      · cases h
  | answer t a =>
      rw [step] at h
      split at h
      · next log q next hs =>
          cases h
          exact .answer a hs
      · cases h
  | collect t =>
      rw [step] at h
      split at h
      · next log r hs =>
          split_ifs at h with hc
          cases h
          exact .collect hs hc.1
      · cases h

/-! ### The invariant -/

/-- What holds of a pool at any time: tasks are where their processes can be, the answers of
the trace are those of the logs, and a question of the trace is answered or out. -/
structure Sound (setup : Setup τ Q R ρ) (pool : Pool τ Q R ρ) : Prop where
  known : ∀ t, (pool.status t).isQueued = false → t ∈ setup.tasks
  follows : ∀ t, (pool.status t).Follows (setup.job t)
  collected : ∀ x ∈ pool.collected, ∃ log, pool.status x.1 = .finished log x.2
  collected_nodup : (pool.collected.map Prod.fst).Nodup
  answered : ∀ x, x ∈ pool.trace.filterMap Move.answered? ↔ ∃ t, x ∈ (pool.status t).log
  asked : (pool.trace.filterMap Move.asked?).Perm
    ((pool.trace.filterMap Move.answered?).map Prod.fst ++ inFlight setup pool.status)

/-- The questions that are out before and after one task moves. -/
lemma exists_inFlight_update {t : τ} (ht : t ∈ setup.tasks) (status : τ → Status Q R ρ) :
    ∃ l l', inFlight setup status = l ++ (status t).pending.toList ++ l' ∧
      ∀ s, inFlight setup (Function.update status t s) = l ++ s.pending.toList ++ l' := by
  obtain ⟨u, v, huv⟩ := List.append_of_mem ht
  have hn : (u ++ t :: v).Nodup := huv ▸ setup.nodup
  have hu : t ∉ u := fun h => (List.nodup_append.mp hn).2.2 t h t (by simp) rfl
  have hv : t ∉ v := (List.nodup_cons.mp (List.nodup_append.mp hn).2.1).1
  have hother : ∀ s, ∀ w : List τ, t ∉ w →
      (w.filterMap fun x => (Function.update status t s x).pending) =
        w.filterMap fun x => (status x).pending := by
    intro s w hw
    refine List.filterMap_congr fun x hx => ?_
    rw [Function.update_of_ne (by rintro rfl; exact hw hx)]
  refine ⟨u.filterMap fun x => (status x).pending, v.filterMap fun x => (status x).pending, ?_,
    fun s => ?_⟩
  · rw [inFlight, huv, List.filterMap_append, List.filterMap_cons]
    cases (status t).pending <;> simp
  · rw [inFlight, huv, List.filterMap_append, List.filterMap_cons, hother s u hu, hother s v hv,
      Function.update_self]
    cases s.pending <;> simp

omit [DecidableEq τ] in
lemma sound_initial (setup : Setup τ Q R ρ) : Sound setup {} where
  known _ h := by cases h
  follows _ := trivial
  collected _ h := by cases h
  collected_nodup := List.nodup_nil
  answered x := by simp [Status.log]
  asked := by
    have hnil : inFlight setup (fun _ => (.queued : Status Q R ρ)) = [] :=
      List.filterMap_eq_nil_iff.mpr fun _ _ => rfl
    rw [hnil]
    exact .nil

omit [DecidableEq τ] in
lemma Sound.mem_tasks (h : Sound setup pool) {t : τ} {log : List (Q × R)} {q : Q}
    {next : R → Process Q R ρ} {asked : Bool} (hs : pool.status t = .running log q next asked) :
    t ∈ setup.tasks :=
  h.known t (by rw [hs]; rfl)

/-- A task that has moved on is not one whose result has been collected. -/
lemma Sound.collected_update (h : Sound setup pool) {t : τ} (s : Status Q R ρ)
    (ht : (pool.status t).isFinished = false) :
    ∀ x ∈ pool.collected, ∃ log, Function.update pool.status t s x.1 = .finished log x.2 := by
  intro x hx
  obtain ⟨log, hlog⟩ := h.collected x hx
  refine ⟨log, ?_⟩
  rw [Function.update_of_ne, hlog]
  rintro rfl
  rw [hlog] at ht
  cases ht

lemma forall_update {P : τ → Status Q R ρ → Prop} {status : τ → Status Q R ρ} {t : τ}
    {s : Status Q R ρ} (hs : P t s) (h : ∀ x, P x (status x)) :
    ∀ x, P x (Function.update status t s x) := by
  intro x
  by_cases hx : x = t
  · subst hx
    rwa [Function.update_self]
  · rw [Function.update_of_ne hx]
    exact h x

lemma exists_log_update {status : τ → Status Q R ρ} {t : τ} {s : Status Q R ρ}
    {new : List (Q × R)} (hs : s.log = (status t).log ++ new) (x : Q × R) :
    (∃ u, x ∈ (Function.update status t s u).log) ↔ (∃ u, x ∈ (status u).log) ∨ x ∈ new := by
  constructor
  · rintro ⟨u, hu⟩
    by_cases hut : u = t
    · subst hut
      rw [Function.update_self, hs, List.mem_append] at hu
      exact hu.imp_left fun h => ⟨u, h⟩
    · rw [Function.update_of_ne hut] at hu
      exact Or.inl ⟨u, hu⟩
  · rintro (⟨u, hu⟩ | hx)
    · by_cases hut : u = t
      · subst hut
        exact ⟨u, by rw [Function.update_self, hs]; exact List.mem_append_left _ hu⟩
      · exact ⟨u, by rwa [Function.update_of_ne hut]⟩
    · exact ⟨t, by rw [Function.update_self, hs]; exact List.mem_append_right _ hx⟩

lemma eq_queued {s : Status Q R ρ} (h : s.isQueued = true) : s = .queued := by
  cases s with
  | queued => rfl
  | running log q next asked => cases h
  | finished log r => cases h

lemma Sound.start (h : Sound setup pool) {t : τ} (ht : t ∈ setup.tasks)
    (hs : (pool.status t).isQueued = true) :
    Sound setup { pool with
      status := Function.update pool.status t (reached [] (setup.job t)) } where
  known := forall_update (P := fun x s => s.isQueued = false → x ∈ setup.tasks) (fun _ => ht)
    h.known
  follows := forall_update (P := fun x s => s.Follows (setup.job x))
    (follows_reached (.refl _)) h.follows
  collected := h.collected_update _ (by rw [eq_queued hs]; rfl)
  collected_nodup := h.collected_nodup
  answered x := by
    have hlog : (reached [] (setup.job t)).log = (pool.status t).log ++ [] := by
      rw [log_reached, eq_queued hs]
      rfl
    rw [exists_log_update hlog, h.answered]
    simp
  asked := by
    obtain ⟨l, l', hbefore, hafter⟩ := exists_inFlight_update ht pool.status
    rw [eq_queued hs] at hbefore
    rw [hafter, pending_reached]
    exact hbefore ▸ h.asked

lemma perm_insert (q : Q) (l l' : List Q) : (l ++ l' ++ [q]).Perm (l ++ [q] ++ l') := by
  rw [List.append_assoc, List.append_assoc]
  exact List.perm_append_comm.append_left l

lemma Sound.ask (h : Sound setup pool) {t : τ} {log : List (Q × R)} {q : Q}
    {next : R → Process Q R ρ} (hs : pool.status t = .running log q next false) :
    Sound setup { pool with
      status := Function.update pool.status t (.running log q next true)
      trace := pool.trace ++ [.asked q] } where
  known := forall_update (P := fun x s => s.isQueued = false → x ∈ setup.tasks)
    (fun _ => h.mem_tasks hs) h.known
  follows := by
    have hf := h.follows t
    rw [hs] at hf
    exact forall_update (P := fun x s => s.Follows (setup.job x)) hf h.follows
  collected := h.collected_update _ (by rw [hs]; rfl)
  collected_nodup := h.collected_nodup
  answered x := by
    have hlog : (Status.running log q next true).log = (pool.status t).log ++ [] := by
      rw [hs, List.append_nil]
      rfl
    rw [exists_log_update hlog, ← h.answered]
    simp [Move.answered?]
  asked := by
    obtain ⟨l, l', hbefore, hafter⟩ := exists_inFlight_update (h.mem_tasks hs) pool.status
    have hperm := h.asked
    rw [hbefore, hs] at hperm
    rw [hafter]
    simp only [List.filterMap_append, List.filterMap_cons, List.filterMap_nil, Move.asked?,
      Move.answered?, pending, Option.toList_some, Option.toList_none, List.append_nil] at hperm ⊢
    refine (hperm.append_right [q]).trans ?_
    rw [List.append_assoc]
    exact (perm_insert q l l').append_left _

lemma Sound.answer (h : Sound setup pool) {t : τ} {log : List (Q × R)} {q : Q}
    {next : R → Process Q R ρ} (a : R) (hs : pool.status t = .running log q next true) :
    Sound setup { pool with
      status := Function.update pool.status t (reached (log ++ [(q, a)]) (next a))
      trace := pool.trace ++ [.answered q a] } where
  known := forall_update (P := fun x s => s.isQueued = false → x ∈ setup.tasks)
    (fun _ => h.mem_tasks hs) h.known
  follows := by
    have hf := h.follows t
    rw [hs] at hf
    exact forall_update (P := fun x s => s.Follows (setup.job x))
      (follows_reached (Leads.concat hf a)) h.follows
  collected := h.collected_update _ (by rw [hs]; rfl)
  collected_nodup := h.collected_nodup
  answered x := by
    have hlog : (reached (log ++ [(q, a)]) (next a)).log = (pool.status t).log ++ [(q, a)] := by
      rw [log_reached, hs]
      rfl
    rw [exists_log_update hlog, ← h.answered]
    simp [Move.answered?]
  asked := by
    obtain ⟨l, l', hbefore, hafter⟩ := exists_inFlight_update (h.mem_tasks hs) pool.status
    have hperm := h.asked
    rw [hbefore, hs] at hperm
    rw [hafter, pending_reached]
    simp only [List.filterMap_append, List.filterMap_cons, List.filterMap_nil, Move.asked?,
      Move.answered?, pending, Option.toList_some, Option.toList_none, List.append_nil,
      List.map_append, List.map_cons, List.map_nil] at hperm ⊢
    -- the answered request moves from the pending ones to the end of the answered ones
    have hmove : (l ++ [q] ++ l').Perm ([q] ++ (l ++ l')) :=
      (perm_insert q l l').symm.trans List.perm_append_comm
    refine hperm.trans ?_
    refine (hmove.append_left _).trans ?_
    exact .of_eq (List.append_assoc _ _ _).symm

omit [DecidableEq τ] in
lemma Sound.collect (h : Sound setup pool) {t : τ} {log : List (Q × R)} {r : ρ}
    (hs : pool.status t = .finished log r) (ht : t ∉ pool.collected.map Prod.fst) :
    Sound setup { pool with collected := pool.collected ++ [(t, r)] } where
  known := h.known
  follows := h.follows
  collected x hx := by
    rcases List.mem_append.mp hx with hx | hx
    · exact h.collected x hx
    · obtain rfl := List.mem_singleton.mp hx
      exact ⟨log, hs⟩
  collected_nodup := by
    rw [List.map_append, List.map_cons, List.map_nil]
    exact List.Nodup.append h.collected_nodup (List.nodup_singleton t) (by simpa using ht)
  answered := h.answered
  asked := h.asked

lemma Sound.step (h : Sound setup pool) {label : Label τ R}
    (hstep : WorkerPool.step setup pool label = some pool') : Sound setup pool' := by
  cases step_stepped hstep with
  | start ht hs => exact h.start ht hs
  | ask hs => exact h.ask hs
  | answer a hs => exact h.answer a hs
  | collect hs ht => exact h.collect hs ht

/-- **Every pool that can be reached is sound.** -/
theorem sound_of_run {labels : List (Label τ R)}
    (h : run (WorkerPool.step setup) {} labels = some pool) : Sound setup pool :=
  run_invariant _ (fun _ _ _ hs hstep => hs.step hstep) (sound_initial setup) h

/-! ### Pools that have been left -/

omit [DecidableEq τ] in
lemma exists_finished (hexit : Exited setup pool) {t : τ} (ht : t ∈ setup.tasks) :
    ∃ log r, pool.status t = .finished log r := by
  have hf := hexit.1 t ht
  cases hs : pool.status t with
  | queued | running log q next asked =>
      rw [hs] at hf
      cases hf
  | finished log r => exact ⟨log, r, rfl⟩

omit [DecidableEq τ] in
/-- Every question of a pool that has been left has been answered. -/
lemma Sound.answered_of_exited (h : Sound setup pool) (hexit : Exited setup pool) :
    (pool.trace.filterMap Move.asked?).Perm
      ((pool.trace.filterMap Move.answered?).map Prod.fst) := by
  have hnil : inFlight setup pool.status = [] := by
    refine List.filterMap_eq_nil_iff.mpr fun t ht => ?_
    obtain ⟨log, r, hs⟩ := exists_finished hexit ht
    rw [hs]
    rfl
  simpa [hnil] using h.asked

/-- The collected tasks, and then those whose results were never asked for. -/
lemma Sound.exists_completed (h : Sound setup pool) (hexit : Exited setup pool) :
    ∃ completed, completed.Perm setup.tasks ∧ pool.collected.map Prod.fst <+: completed ∧
      (completed = pool.collected.map Prod.fst ∨ stopped setup pool = true) := by
  have hsub : ∀ t ∈ pool.collected.map Prod.fst, t ∈ setup.tasks := by
    intro t ht
    obtain ⟨x, hx, rfl⟩ := List.mem_map.mp ht
    obtain ⟨log, hlog⟩ := h.collected x hx
    exact h.known _ (by rw [hlog]; rfl)
  refine ⟨pool.collected.map Prod.fst ++
    setup.tasks.filter fun t => t ∉ pool.collected.map Prod.fst, ?_, List.prefix_append _ _, ?_⟩
  · have hdisjoint : List.Disjoint (pool.collected.map Prod.fst)
        (setup.tasks.filter fun t => t ∉ pool.collected.map Prod.fst) := by
      intro t ht ht'
      exact of_decide_eq_true (List.mem_filter.mp ht').2 ht
    refine (List.perm_ext_iff_of_nodup (List.Nodup.append h.collected_nodup
      (setup.nodup.filter _) hdisjoint) setup.nodup).mpr fun t => ?_
    rw [List.mem_append, List.mem_filter, decide_eq_true_iff]
    by_cases ht : t ∈ pool.collected.map Prod.fst
    · exact iff_of_true (Or.inl ht) (hsub t ht)
    · simp [ht]
  · refine hexit.2.imp_left fun hall => ?_
    rw [List.filter_eq_nil_iff.mpr fun t ht => by simpa using hall t ht, List.append_nil]

omit [DecidableEq τ] in
/-- **A pool that has been left** has done what its processes do with some answers: these are
the results it has collected and the answers in its trace. -/
theorem Sound.exited_run [Inhabited R] (h : Sound setup pool) (hexit : Exited setup pool) :
    ∃ answers : τ → ℕ → R,
      (∀ x ∈ pool.collected, x.2 = (setup.job x.1).result (answers x.1)) ∧
      ∀ x, x ∈ pool.trace.filterMap Move.answered? ↔
        ∃ t ∈ setup.tasks, x ∈ (setup.job t).exchange (answers t) := by
  let answers (t : τ) (n : ℕ) : R := ((pool.status t).log[n]?.map Prod.snd).getD default
  have hrun : ∀ t log r, pool.status t = .finished log r →
      (setup.job t).result (answers t) = r ∧ (setup.job t).exchange (answers t) = log := by
    intro t log r hs
    have hleads := h.follows t
    rw [hs] at hleads
    refine Leads.result_eq hleads fun n x hx => ?_
    simp [answers, hs, Status.log, hx]
  refine ⟨answers, fun x hx => ?_, fun x => ?_⟩
  · obtain ⟨log, hlog⟩ := h.collected x hx
    exact (hrun _ _ _ hlog).1.symm
  · rw [h.answered]
    constructor
    · rintro ⟨t, hx⟩
      have ht : t ∈ setup.tasks := by
        refine h.known t ?_
        cases hs : pool.status t with
        | queued =>
            rw [hs] at hx
            cases hx
        | running log q next asked | finished log r => rfl
      obtain ⟨log, r, hs⟩ := exists_finished hexit ht
      rw [hs] at hx
      exact ⟨t, ht, by rwa [(hrun t log r hs).2]⟩
    · rintro ⟨t, ht, hx⟩
      obtain ⟨log, r, hs⟩ := exists_finished hexit ht
      rw [(hrun t log r hs).2] at hx
      exact ⟨t, by rwa [hs]⟩

end MarineDelivery.WorkerPool
