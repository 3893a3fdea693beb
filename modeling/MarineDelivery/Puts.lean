import MarineDelivery.Histories
import MarineDelivery.Commit

/-!
The puts of a call, in the order in which the object store sees them.

The operations of a call are put one after the other. Within an operation the worker threads
run side by side, no more of them than `max_concurrent_uploads`; but each file alone is put
attempt by attempt, the next only after an `OSError`, three times at most. Outside the pools
nothing is out, at the POST neither.
-/

namespace MarineDelivery.Puts

open MarineDelivery.PathLib MarineDelivery.Errors MarineDelivery.Domain
open MarineDelivery.S3 MarineDelivery.OrderedDict MarineDelivery.Processes
open MarineDelivery.WorkerPool MarineDelivery.Core MarineDelivery.Calls
open MarineDelivery.Protocol MarineDelivery.Progress MarineDelivery.Histories

/-! ### The puts of one file -/

/-- The puts of a file from attempt `n` on, as far as they have come: one may be out, one may
have settled the file, and one that ended with an `OSError` may be followed by the next. -/
inductive Attempts (call : ℕ → PutCall) : ℕ → List Event → Prop
  | idle (n : ℕ) : Attempts call n []
  | out {n : ℕ} (hn : n ≤ osErrorRetries) : Attempts call n [.started (call n)]
  | settled {n : ℕ} (hn : n ≤ osErrorRetries) {a : PutAttempt} (ha : ∀ text, a ≠ .osError text) :
    Attempts call n [.started (call n), .ended (call n) a]
  | again {n : ℕ} (hn : n ≤ osErrorRetries) (text : String) {rest : List Event}
    (hrest : Attempts call (n + 1) rest) :
    Attempts call n (.started (call n) :: .ended (call n) (.osError text) :: rest)

lemma attempts_putFrom {call : ℕ → PutCall} {left n : ℕ} {log : List (PutCall × PutAttempt)}
    {p : Process PutCall PutAttempt (Except PutFailure (Option String))}
    (hn : n + left = osErrorRetries) (h : Leads (putFrom call left n) log p) :
    Attempts call n ((exchanged log).map eventOf) ∧ ∀ q next, p = .ask q next →
      Attempts call n ((exchanged log ++ [Move.asked q]).map eventOf) := by
  induction left generalizing n log with
  | zero =>
      rw [putFrom] at h
      cases h with
      | refl => exact ⟨.idle n, fun q next e => by cases e; exact .out hn.le⟩
      | ask q next a h =>
          cases a with
          | success eTag | exception text =>
              obtain ⟨rfl, rfl⟩ := leads_done h
              exact ⟨.settled hn.le (by simp), fun _ _ e => by cases e⟩
          | osError text =>
              obtain ⟨rfl, rfl⟩ := leads_done h
              exact ⟨.again hn.le text (.idle _), fun _ _ e => by cases e⟩
  | succ left ih =>
      have hle : n ≤ osErrorRetries := by omega
      rw [putFrom] at h
      cases h with
      | refl => exact ⟨.idle n, fun q next e => by cases e; exact .out hle⟩
      | ask q next a h =>
          cases a with
          | success eTag | exception text =>
              obtain ⟨rfl, rfl⟩ := leads_done h
              exact ⟨.settled hle (by simp), fun _ _ e => by cases e⟩
          | osError text =>
              obtain ⟨hlog, hout⟩ := ih (by omega) h
              exact ⟨.again hle text hlog, fun q next e => .again hle text (hout q next e)⟩

lemma Attempts.length_le {call : ℕ → PutCall} {n : ℕ} {events : List Event}
    (h : Attempts call n events) : (startedCalls events).length ≤ osErrorRetries + 1 - n := by
  induction h with
  | idle n => exact Nat.zero_le _
  | @out n hn | @settled n hn a ha =>
      have hone : 1 ≤ osErrorRetries + 1 - n := by omega
      exact hone
  | @again n hn text rest hrest ih =>
      have hcons : (startedCalls (.started (call n) :: .ended (call n) (.osError text) ::
          rest)).length = (startedCalls rest).length + 1 := rfl
      omega

lemma attempts_history {call : ℕ → PutCall} {times : UploadTimes} {key : String}
    {file : PosixPath} {dryRun raiseOnError : Bool}
    {s : Status PutCall PutAttempt (Except PyError FileResult)}
    (h : s.Follows (uploadFile call times key file dryRun raiseOnError)) :
    Attempts call 1 ((Status.history s).map eventOf) := by
  cases s with
  | queued => exact .idle 1
  | running log q next asked =>
      rw [Status.Follows, uploadFile] at h
      split_ifs at h
      · cases (leads_done h).2
      · obtain ⟨p₀, h₀, hp⟩ := leads_map h
        obtain ⟨hlog, hout⟩ := attempts_putFrom rfl h₀
        cases p₀ with
        | done r => cases hp
        | ask q₀ next₀ =>
            obtain ⟨rfl, -⟩ := Process.ask.inj hp
            cases asked with
            | false => simpa [Status.history] using hlog
            | true => exact hout q next₀ rfl
  | finished log r =>
      rw [Status.Follows, uploadFile] at h
      split_ifs at h
      · rw [(leads_done h).1]
        exact .idle 1
      · obtain ⟨p₀, h₀, -⟩ := leads_map h
        exact (attempts_putFrom rfl h₀).1

/-! ### One pool -/

/-- The operation and the file an event is about. -/
def placeOf : Event → Option (ℕ × PosixPath)
  | .started q | .ended q _ => some (q.operation, q.file)
  | .posted _ => none

variable {world : World} {args : CallArgs} {session : Session}
variable {times : ℕ → PosixPath → UploadTimes} {n : ℕ} {keys : Dict PosixPath String}
variable {pool : UploadPool}

lemma placeOf_eventOf (m : Move PutCall PutAttempt) :
    placeOf (eventOf m) = some ((Move.question m).operation, (Move.question m).file) := by
  cases m <;> rfl

lemma owned_futures : Owned (futures args session times n keys) (fun item => (n, item.1))
    (fun q => (q.operation, q.file)) where
  inj t ht u hu h := by
    have hkey : (t.1, u.2) ∈ keys.items := by
      rw [(Prod.mk.inj h).2]
      exact hu
    exact Prod.ext (Prod.mk.inj h).2 (Dict.items_inj ht hkey)
  asks t ht log q next h := by
    obtain ⟨m, rfl⟩ := (leads_uploadFile_calls h).2 q next rfl
    rfl

/-- A pool puts the files of its own operation, each as it would be put alone. -/
lemma attempts_pool {labels : List (WorkerPool.Label (PosixPath × String) PutAttempt)}
    (h : run (WorkerPool.step (futures args session times n keys)) {} labels = some pool)
    (place : ℕ × PosixPath) :
    ((pool.trace.map eventOf).filter fun e => placeOf e = some place) = [] ∨
      place.1 = n ∧ ∃ key, Attempts
        (putCall session.s3Client n args.chunkSizeBytes (place.2, key)) 1
        ((pool.trace.map eventOf).filter fun e => placeOf e = some place) := by
  have hshows := shows_of_run owned_futures h
  have hfilter : ((pool.trace.map eventOf).filter fun e => placeOf e = some place) =
      (pool.trace.filter fun m =>
        ((Move.question m).operation, (Move.question m).file) = place).map eventOf := by
    rw [List.filter_map]
    simp only [Function.comp_def, placeOf_eventOf, Option.some.injEq]
  rw [hfilter]
  by_cases hplace : ∃ item ∈ keys.items, (n, item.1) = place
  · obtain ⟨item, hitem, rfl⟩ := hplace
    refine .inr ⟨rfl, item.2, ?_⟩
    rw [hshows.task item hitem]
    exact attempts_history ((sound_of_run h).follows item)
  · refine .inl ?_
    rw [List.filter_eq_nil_iff.mpr fun m hm hown => ?_, List.map_nil]
    obtain ⟨item, hitem, howner⟩ := hshows.owned m hm
    exact hplace ⟨item, hitem, howner.symm.trans (of_decide_eq_true hown)⟩

lemma operation_of_mem_pool {labels : List (WorkerPool.Label (PosixPath × String) PutAttempt)}
    (h : run (WorkerPool.step (futures args session times n keys)) {} labels = some pool)
    {e : Event} (he : e ∈ pool.trace.map eventOf) {place : ℕ × PosixPath}
    (hplace : placeOf e = some place) : place.1 = n := by
  rcases attempts_pool h place with hnil | ⟨hn, -⟩
  · exact absurd (decide_eq_true hplace) (List.filter_eq_nil_iff.mp hnil e he)
  · exact hn

/-! ### The whole call -/

/-- The files of every operation are put one by one, and the operations one after the other. -/
structure Sequential (client : S3Client) (chunkSize : ℤ) (events : List Event) : Prop where
  attempts : ∀ n path, ∃ key, Attempts (putCall client n chunkSize (path, key)) 1
    (events.filter fun e => placeOf e = some (n, path))
  ordered : ((events.filterMap placeOf).map Prod.fst).Pairwise (· ≤ ·)

/-- What holds of a call at any time: what is done is sequential and balanced, it belongs to
operations that have been processed, and the pool that is open has been run. -/
structure Orderly (args : CallArgs) (session : Session) (times : ℕ → PosixPath → UploadTimes)
    (s : State) : Prop where
  sequential : Sequential session.s3Client args.chunkSizeBytes s.events
  balanced : (startedCalls s.events).Perm ((endedCalls s.events).map Prod.fst)
  before : (∀ result, s.main ≠ .ended result) →
    ∀ e ∈ s.events, ∀ place, placeOf e = some place → place.1 < s.processed.length
  pool : ∀ op keys pool, s.main = .uploading op keys pool →
    ∃ labels, run (WorkerPool.step (futures args session times s.processed.length keys)) {}
      labels = some pool

variable {s s' : State}

lemma Sequential.append_pool {events : List Event}
    (h : Sequential session.s3Client args.chunkSizeBytes events)
    (hbefore : ∀ e ∈ events, ∀ place, placeOf e = some place → place.1 < n)
    {labels : List (WorkerPool.Label (PosixPath × String) PutAttempt)}
    (hrun : run (WorkerPool.step (futures args session times n keys)) {} labels = some pool) :
    Sequential session.s3Client args.chunkSizeBytes (events ++ pool.trace.map eventOf) where
  attempts m path := by
    rw [List.filter_append]
    rcases attempts_pool hrun (m, path) with hnil | ⟨rfl, key, hpool⟩
    · rw [hnil, List.append_nil]
      exact h.attempts m path
    · have hnone : (events.filter fun e => placeOf e = some (m, path)) = [] := by
        refine List.filter_eq_nil_iff.mpr fun e he hplace => ?_
        exact absurd (hbefore e he _ (of_decide_eq_true hplace)) (lt_irrefl m)
      rw [hnone, List.nil_append]
      exact ⟨key, hpool⟩
  ordered := by
    have hpool : ∀ m ∈ ((pool.trace.map eventOf).filterMap placeOf).map Prod.fst, m = n := by
      intro m hm
      obtain ⟨place, hplace, rfl⟩ := List.mem_map.mp hm
      obtain ⟨e, he, hsome⟩ := List.mem_filterMap.mp hplace
      exact operation_of_mem_pool hrun he hsome
    rw [List.filterMap_append, List.map_append]
    refine List.pairwise_append.mpr ⟨h.ordered, ?_, fun m hm k hk => ?_⟩
    · exact List.pairwise_of_forall_mem_list fun m hm k hk => ((hpool m hm).trans
        (hpool k hk).symm).le
    · obtain ⟨place, hplace, rfl⟩ := List.mem_map.mp hm
      obtain ⟨e, he, hsome⟩ := List.mem_filterMap.mp hplace
      rw [hpool k hk]
      exact (hbefore e he place hsome).le

lemma Orderly.sequential_trace (h : Orderly args session times s) :
    Sequential session.s3Client args.chunkSizeBytes s.trace := by
  obtain ⟨todo, processed, main, events⟩ := s
  cases main with
  | between | ended result => exact h.sequential
  | uploading op keys pool =>
      obtain ⟨labels, hrun⟩ := h.pool op keys pool rfl
      exact h.sequential.append_pool (h.before (by simp)) hrun

lemma Orderly.takeNext (h : Orderly args session times s)
    (hstep : takeNext args session s = some s') : Orderly args session times s' := by
  obtain ⟨todo, processed, main, events⟩ := s
  cases main with
  | uploading op keys pool | ended result => cases hstep
  | between =>
      rcases todo with _ | ⟨op | op, todo⟩
      · cases hstep
      · cases hstep
        refine ⟨h.sequential, h.balanced, fun _ e he place hplace => ?_, by simp⟩
        rw [List.length_append]
        exact Nat.lt_add_right 1 (h.before (by simp) e he place hplace)
      · rw [Protocol.takeNext] at hstep
        cases hkeys : getLocalPathS3KeysMapping (op.files.map (·.localPath)) session.deliveryId
            args.productId args.datasetId op.anchor with
        | error e =>
            simp only [hkeys, Option.some.injEq] at hstep
            subst hstep
            exact ⟨h.sequential, h.balanced, fun hended => absurd rfl (hended _), by simp⟩
        | ok keys =>
            simp only [hkeys] at hstep
            split_ifs at hstep
            · cases hstep
              exact ⟨h.sequential, h.balanced, fun hended => absurd rfl (hended _), by simp⟩
            · cases hstep
              exact ⟨h.sequential, h.balanced, fun _ => h.before (by simp),
                fun op keys pool hmain => ⟨[], by cases hmain; rfl⟩⟩

lemma Orderly.workerStep (h : Orderly args session times s)
    {label : WorkerPool.Label (PosixPath × String) PutAttempt}
    (hstep : workerStep args session times s label = some s') :
    Orderly args session times s' := by
  obtain ⟨todo, processed, main, events⟩ := s
  cases main with
  | between | ended result => cases hstep
  | uploading op keys pool =>
      obtain ⟨pool', hpool, rfl⟩ := Option.map_eq_some_iff.mp hstep
      obtain ⟨labels, hrun⟩ := h.pool op keys pool rfl
      refine ⟨h.sequential, h.balanced, fun _ => h.before (by simp), fun op keys pool hmain => ?_⟩
      cases hmain
      exact ⟨labels ++ [label], run_concat hrun hpool⟩

/-- In a pool that has been left every put has ended. -/
lemma calls_exited {labels : List (WorkerPool.Label (PosixPath × String) PutAttempt)}
    (hrun : run (WorkerPool.step (futures args session times n keys)) {} labels = some pool)
    (hexit : Exited (futures args session times n keys) pool) :
    (startedCalls (pool.trace.map eventOf)).Perm
      ((endedCalls (pool.trace.map eventOf)).map Prod.fst) := by
  rw [startedCalls_map_eventOf, endedCalls_map_eventOf]
  exact (sound_of_run hrun).answered_of_exited hexit

lemma Orderly.closePool (h : Orderly args session times s)
    (hstep : closePool args session times s = some s') : Orderly args session times s' := by
  have htrace := h.sequential_trace
  obtain ⟨todo, processed, main, events⟩ := s
  cases main with
  | between | ended result => cases hstep
  | uploading op keys pool =>
      obtain ⟨labels, hrun⟩ := h.pool op keys pool rfl
      simp only [Protocol.closePool] at hstep
      split_ifs at hstep with hexit
      have hbalanced : (startedCalls (events ++ pool.trace.map eventOf)).Perm
          ((endedCalls (events ++ pool.trace.map eventOf)).map Prod.fst) := by
        have hboth := h.balanced.append (calls_exited hrun hexit)
        rwa [← List.map_append, startedCalls, startedCalls, endedCalls, endedCalls,
          ← List.filterMap_append, ← List.filterMap_append] at hboth
      cases hconcluded : concluded args op pool with
      | error e =>
          simp only [hconcluded, Option.some.injEq] at hstep
          subst hstep
          exact ⟨htrace, hbalanced, fun hended => absurd rfl (hended _), by simp⟩
      | ok x =>
          simp only [hconcluded, Option.some.injEq] at hstep
          subst hstep
          refine ⟨htrace, hbalanced, fun _ e he place hplace => ?_, by simp⟩
          rw [List.length_append]
          rcases List.mem_append.mp he with he | he
          · exact Nat.lt_add_right 1 (h.before (by simp) e he place hplace)
          · rw [operation_of_mem_pool hrun he hplace]
            exact Nat.lt_succ_self _

lemma Orderly.submitDelivery (h : Orderly args session times s)
    (hstep : submitDelivery world args session s = some s') :
    Orderly args session times s' := by
  obtain ⟨todo, processed, main, events⟩ := s
  cases main with
  | uploading op keys pool | ended result => cases hstep
  | between =>
      cases todo with
      | cons p todo => cases hstep
      | nil =>
          cases hstep
          refine ⟨⟨fun m path => ?_, ?_⟩, ?_, fun hended => absurd rfl (hended _), by simp⟩
          all_goals
            rcases submit_events world args session.config
              (deliveryOf args session (processed.map Prod.fst)) with hs | hs
          · simpa [hs] using h.sequential.attempts m path
          · simpa [hs, placeOf] using h.sequential.attempts m path
          · simpa [hs] using h.sequential.ordered
          · simpa [hs, placeOf, List.filterMap_cons] using h.sequential.ordered
          · simpa [hs] using h.balanced
          · simpa [hs, startedCalls, endedCalls] using h.balanced

lemma Orderly.step (h : Orderly args session times s) {label : Label}
    (hstep : step world args session times s label = some s') :
    Orderly args session times s' := by
  cases label with
  | next => exact h.takeNext hstep
  | worker label => exact h.workerStep hstep
  | close => exact h.closePool hstep
  | submit => exact h.submitDelivery hstep

/-- **Every state that can be reached is orderly.** -/
theorem orderly_of_run {pending : List PendingOperation} {labels : List Label}
    (h : run (Protocol.step world args session times) { todo := pending } labels = some s) :
    Orderly args session times s := by
  refine run_invariant _ (fun _ _ _ hs hstep => hs.step hstep) ?_ h
  exact ⟨⟨fun _ _ => ⟨"", .idle 1⟩, .nil⟩, .nil, fun _ e he => (by cases he),
    fun _ _ _ hmain => (by cases hmain)⟩

/-! ### Calls -/

variable {request : Request} {labels : List Label}

/-- **Each file is put attempt by attempt.** In every interleaving the puts of a file are made
one after the other, the next only after an `OSError`, and no more than three; and nothing of an
operation comes before the end of what was done for the operations before it. -/
theorem puts_sequential (h : Reaches world args times request labels s) :
    ∃ client, Sequential client args.chunkSizeBytes s.trace ∧
      ∀ n path, (startedCalls (s.trace.filter fun e => placeOf e = some (n, path))).length ≤
        osErrorRetries := by
  obtain ⟨session, pending, -, hrun⟩ := h
  have hsequential := (orderly_of_run hrun).sequential_trace
  refine ⟨session.s3Client, hsequential, fun n path => ?_⟩
  obtain ⟨key, hattempts⟩ := hsequential.attempts n path
  exact hattempts.length_le

/-! ### Nothing happens twice -/

/-- The put an event is about, and whether it ends. -/
def mark : Event → Option (PutCall × Bool)
  | .started q => some (q, false)
  | .ended q _ => some (q, true)
  | .posted _ => none

lemma placeOf_eq_map_mark (e : Event) :
    placeOf e = (mark e).map fun x => (x.1.operation, x.1.file) := by
  cases e <;> rfl

lemma Attempts.nodup_marks {call : ℕ → PutCall} (hcall : ∀ k, (call k).attempt = k) {n : ℕ}
    {events : List Event} (h : Attempts call n events) :
    (events.map mark).Nodup ∧ ∀ x ∈ events.map mark, ∃ k b, n ≤ k ∧ x = some (call k, b) := by
  induction h with
  | idle n => exact ⟨.nil, fun x hx => by cases hx⟩
  | @out n hn =>
      refine ⟨List.nodup_singleton _, fun x hx => ?_⟩
      exact ⟨n, false, le_refl n, List.mem_singleton.mp hx⟩
  | @settled n hn a ha =>
      refine ⟨by simp [mark], fun x hx => ?_⟩
      rcases List.mem_pair.mp hx with rfl | rfl
      · exact ⟨n, false, le_refl n, rfl⟩
      · exact ⟨n, true, le_refl n, rfl⟩
  | @again n hn text rest hrest ih =>
      obtain ⟨hnodup, hmarks⟩ := ih
      have hlater : ∀ b, some (call n, b) ∉ rest.map mark := by
        intro b hb
        obtain ⟨k, _, hk, heq⟩ := hmarks _ hb
        have hattempt := congrArg PutCall.attempt (Prod.mk.inj (Option.some.inj heq)).1
        rw [hcall, hcall] at hattempt
        omega
      refine ⟨?_, fun x hx => ?_⟩
      · refine List.nodup_cons.mpr ⟨fun hmem => ?_, List.nodup_cons.mpr ⟨hlater true, hnodup⟩⟩
        rcases List.mem_cons.mp hmem with heq | hmem
        · cases heq
        · exact hlater false hmem
      · rcases List.mem_cons.mp hx with rfl | hx
        · exact ⟨n, false, le_refl n, rfl⟩
        · rcases List.mem_cons.mp hx with rfl | hx
          · exact ⟨n, true, le_refl n, rfl⟩
          · obtain ⟨k, b, hk, heq⟩ := hmarks x hx
            exact ⟨k, b, by omega, heq⟩

/-- The values of a function are different if they are in each class of a coarser one. -/
lemma nodup_map_of_classes {α β γ : Type} [DecidableEq γ] {f : α → β} {g : α → γ} {l : List α}
    (hg : ∀ a b, f a = f b → g a = g b)
    (h : ∀ c, ((l.filter fun a => g a = c).map f).Nodup) : (l.map f).Nodup := by
  rw [List.Nodup, List.pairwise_map, List.pairwise_iff_forall_sublist]
  intro a b hsub heq
  have hclass := hsub.filter fun x => g x = g a
  have hboth : [a, b].filter (fun x => g x = g a) = [a, b] := by
    simp [hg a b heq]
  rw [hboth] at hclass
  have hpair := (h (g a)).sublist (hclass.map f)
  exact (List.nodup_cons.mp hpair).1 (by simp [heq])

lemma length_filter_placeOf_none (events : List Event) :
    (events.filter fun e => placeOf e = none).length =
      (events.filterMap Commit.postedDelivery).length := by
  rw [List.length_filterMap_eq_countP, ← List.countP_eq_length_filter]
  exact List.countP_congr fun e _ => by cases e <;> simp [placeOf, Commit.postedDelivery]

/-- **Nothing happens twice**: no put is started twice or ends twice, and no more than one
delivery is POSTed. -/
theorem nodup_marks (h : Reaches world args times request labels s) :
    (s.trace.map mark).Nodup := by
  obtain ⟨session, pending, -, hrun⟩ := h
  have hsequential := (orderly_of_run hrun).sequential_trace
  refine nodup_map_of_classes (g := placeOf) (fun a b heq => ?_) fun place => ?_
  · rw [placeOf_eq_map_mark, placeOf_eq_map_mark, heq]
  · rcases place with _ | ⟨n, path⟩
    · have hlength := Commit.length_posted_le_one (inv_of_run hrun)
      rw [← length_filter_placeOf_none] at hlength
      match s.trace.filter fun e => placeOf e = none, hlength with
      | [], _ => exact .nil
      | [e], _ => exact List.nodup_singleton _
    · obtain ⟨key, hattempts⟩ := hsequential.attempts n path
      exact (hattempts.nodup_marks fun k => rfl).1

lemma outcome_unique (h : Reaches world args times request labels s) {q : PutCall}
    {a a' : PutAttempt} (ha : .ended q a ∈ s.trace) (ha' : .ended q a' ∈ s.trace) : a = a' :=
  (Event.ended.inj (List.inj_on_of_nodup_map (nodup_marks h) ha ha' rfl)).2

/-! ### The puts that are out -/

/-- The puts that are out are those of the open pool, no more than it has workers. -/
lemma Orderly.in_flight (h : Orderly args session times s) :
    ∃ out : List PutCall,
      (startedCalls s.trace).Perm ((endedCalls s.trace).map Prod.fst ++ out) ∧
      out.length ≤ args.maxConcurrentUploads.toNat ∧
      ((∀ op keys pool, s.main ≠ .uploading op keys pool) → out = []) := by
  obtain ⟨todo, processed, main, events⟩ := s
  have hevents : (startedCalls events).Perm ((endedCalls events).map Prod.fst) := h.balanced
  cases main with
  | between | ended result =>
      refine ⟨[], ?_, Nat.zero_le _, fun _ => rfl⟩
      rwa [List.append_nil]
  | uploading op keys pool =>
      obtain ⟨labels, hrun⟩ := h.pool op keys pool rfl
      have hpool := (sound_of_run hrun).asked
      rw [← startedCalls_map_eventOf, ← endedCalls_map_eventOf] at hpool
      refine ⟨_, ?_, length_inFlight_le.trans (busy_le hrun), fun hno => absurd rfl (hno _ _ _)⟩
      have hboth := hevents.append hpool
      rwa [← List.append_assoc, ← List.map_append, startedCalls, startedCalls, endedCalls,
        endedCalls, ← List.filterMap_append, ← List.filterMap_append] at hboth

/-- **No more puts are out than may be**: in every state of a call at most
`max_concurrent_uploads` of the puts that have been started have not ended, and all have ended
where no pool is open and when the delivery is POSTed. -/
theorem puts_in_flight (h : Reaches world args times request labels s) :
    (∃ out : List PutCall,
      (startedCalls s.trace).Perm ((endedCalls s.trace).map Prod.fst ++ out) ∧
      out.length ≤ args.maxConcurrentUploads.toNat ∧
      ((∀ op keys pool, s.main ≠ .uploading op keys pool) → out = [])) ∧
    ∀ pre d post, s.trace = pre ++ .posted d :: post →
      (startedCalls pre).Perm ((endedCalls pre).map Prod.fst) := by
  obtain ⟨session, pending, -, hrun⟩ := h
  refine ⟨(orderly_of_run hrun).in_flight, fun pre d post htrace => ?_⟩
  obtain ⟨_, _, hloop, -, -⟩ := Commit.posted_split (inv_of_run hrun) htrace
  exact hloop.balanced

def onlyItem : PosixPath × String :=
  (PosixPath.ofString "a.nc", "data/20250102T030405-prod-1234/prod/dset/a.nc")

def onlyPending : List PendingOperation :=
  [.upload ⟨[Manifest.fileToUpload (exampleWorld [("a.nc", 10)]).fileSystem "a.nc"], none⟩]

/-- The file is put, fails, and is being put again. -/
def puttingAgain : List Label :=
  [.next, .worker (.start onlyItem), .worker (.ask onlyItem),
    .worker (.answer onlyItem (.osError "timeout")), .worker (.ask onlyItem)]

lemma exists_puttingAgain : ∃ s : State, (startedCalls s.trace).length = 2 ∧
    (endedCalls s.trace).length = 1 ∧
    Reaches (exampleWorld [("a.nc", 10)]) exampleArgs exampleTimes (.upload ["a.nc"] none)
      puttingAgain s := by
  have hprep : (Request.upload ["a.nc"] none).prepare (exampleWorld [("a.nc", 10)]) exampleArgs =
      .ok (exampleSession [("a.nc", 10)], onlyPending) := by
    decide +kernel
  have hrun : ((run (Protocol.step (exampleWorld [("a.nc", 10)]) exampleArgs
      (exampleSession [("a.nc", 10)]) exampleTimes) { todo := onlyPending } puttingAgain).map
        fun s => ((startedCalls s.trace).length, (endedCalls s.trace).length)) = some (2, 1) := by
    decide +kernel
  obtain ⟨s, hs, hlength⟩ := Option.map_eq_some_iff.mp hrun
  obtain ⟨hstarted, hended⟩ := Prod.mk.inj hlength
  exact ⟨s, hstarted, hended, _, _, hprep, hs⟩

theorem puts_sequential_again : ∃ s : State, (startedCalls s.trace).length = 2 ∧
    ∃ client, Sequential client exampleArgs.chunkSizeBytes s.trace := by
  obtain ⟨s, hstarted, -, hreaches⟩ := exists_puttingAgain
  obtain ⟨client, hsequential, -⟩ := puts_sequential hreaches
  exact ⟨s, hstarted, client, hsequential⟩

theorem puts_in_flight_again : ∃ s : State,
    (startedCalls s.trace).length = 2 ∧ (endedCalls s.trace).length = 1 ∧
    (∃ out : List PutCall,
      (startedCalls s.trace).Perm ((endedCalls s.trace).map Prod.fst ++ out) ∧
      out.length ≤ exampleArgs.maxConcurrentUploads.toNat ∧
      ((∀ op keys pool, s.main ≠ .uploading op keys pool) → out = [])) ∧
    ∀ pre d post, s.trace = pre ++ .posted d :: post →
      (startedCalls pre).Perm ((endedCalls pre).map Prod.fst) := by
  obtain ⟨s, hstarted, hended, hreaches⟩ := exists_puttingAgain
  exact ⟨s, hstarted, hended, puts_in_flight hreaches⟩

end MarineDelivery.Puts
