import Mathlib.Data.List.Basic

/-!
Programs that ask and are answered.

A process is done, or it asks for something and goes on with the answer. When every answer
is known beforehand, `result` and `exchange` run it in one go; `Leads` follows it while the
answers come one at a time.
-/

namespace MarineDelivery.Processes

variable {Q R ρ σ : Type}

inductive Process (Q R ρ : Type)
  | done (r : ρ)
  | ask (q : Q) (next : R → Process Q R ρ)

namespace Process

/-- The process with another result. -/
def map (f : ρ → σ) : Process Q R ρ → Process Q R σ
  | done r => done (f r)
  | ask q next => ask q fun a => (next a).map f

/-- What the process ends with, the `n`-th question being given the `n`-th answer. -/
def result : Process Q R ρ → (ℕ → R) → ρ
  | done r, _ => r
  | ask _ next, answers => (next (answers 0)).result fun n => answers (n + 1)

/-- The questions and their answers. -/
def exchange : Process Q R ρ → (ℕ → R) → List (Q × R)
  | done _, _ => []
  | ask q next, answers =>
    (q, answers 0) :: (next (answers 0)).exchange fun n => answers (n + 1)

lemma result_map (f : ρ → σ) (p : Process Q R ρ) (answers : ℕ → R) :
    (p.map f).result answers = f (p.result answers) := by
  induction p generalizing answers with
  | done r => rfl
  | ask q next ih => exact ih _ _

lemma exchange_map (f : ρ → σ) (p : Process Q R ρ) (answers : ℕ → R) :
    (p.map f).exchange answers = p.exchange answers := by
  induction p generalizing answers with
  | done r => rfl
  | ask q next ih => exact congrArg (_ :: ·) (ih _ _)

/-- Where each question has its own answer, a process is asked and ends in one way only. -/
lemma eq_of_obeys {oracle : Q → R} {p : Process Q R ρ} {answers answers' : ℕ → R}
    (h : ∀ x ∈ p.exchange answers, x.2 = oracle x.1)
    (h' : ∀ x ∈ p.exchange answers', x.2 = oracle x.1) :
    p.exchange answers = p.exchange answers' ∧ p.result answers = p.result answers' := by
  induction p generalizing answers answers' with
  | done r => exact ⟨rfl, rfl⟩
  | ask q next ih =>
      have h0 : answers 0 = answers' 0 :=
        (h _ List.mem_cons_self).trans (h' _ List.mem_cons_self).symm
      obtain ⟨hexchange, hresult⟩ := ih (answers' 0)
        (fun x hx => h x (List.mem_cons_of_mem _ (by rwa [h0])))
        (fun x hx => h' x (List.mem_cons_of_mem _ hx))
      rw [exchange, exchange, result, result, h0]
      exact ⟨congrArg _ hexchange, hresult⟩

end Process

open Process

/-- `Leads p log p'`: after the exchange `log`, what is left of `p` is `p'`. -/
inductive Leads : Process Q R ρ → List (Q × R) → Process Q R ρ → Prop
  | refl (p : Process Q R ρ) : Leads p [] p
  | ask (q : Q) (next : R → Process Q R ρ) (a : R) {log : List (Q × R)} {p' : Process Q R ρ}
    (h : Leads (next a) log p') : Leads (ask q next) ((q, a) :: log) p'

lemma Leads.concat {p : Process Q R ρ} {log : List (Q × R)} {q : Q} {next : R → Process Q R ρ}
    (h : Leads p log (.ask q next)) (a : R) : Leads p (log ++ [(q, a)]) (next a) := by
  generalize hp : Process.ask q next = p' at h
  induction h with
  | refl p => subst hp; exact .ask q next a (.refl _)
  | ask q' next' b _ ih => exact .ask q' next' b (ih hp)

lemma leads_done {r : ρ} {log : List (Q × R)} {p' : Process Q R ρ}
    (h : Leads (.done r) log p') : log = [] ∧ p' = .done r := by
  cases h; exact ⟨rfl, rfl⟩

lemma leads_exchange (p : Process Q R ρ) (answers : ℕ → R) :
    Leads p (p.exchange answers) (.done (p.result answers)) := by
  induction p generalizing answers with
  | done r => exact .refl _
  | ask q next ih => exact .ask q next _ (ih _ _)

/-- A process led to its end is the process run with the answers of the log. -/
lemma Leads.result_eq {p : Process Q R ρ} {log : List (Q × R)} {r : ρ}
    (h : Leads p log (.done r)) {answers : ℕ → R}
    (ha : ∀ n x, log[n]? = some x → answers n = x.2) :
    p.result answers = r ∧ p.exchange answers = log := by
  generalize hp : Process.done r = p' at h
  induction h generalizing answers with
  | refl p => subst hp; exact ⟨rfl, rfl⟩
  | ask q next a _ ih =>
      have h0 : answers 0 = a := ha 0 (q, a) rfl
      obtain ⟨hr, he⟩ := ih (fun n x hx => ha (n + 1) x (by simpa using hx)) hp
      exact ⟨by rw [result, h0]; exact hr, by rw [exchange, h0, he]⟩

/-- A mapped process is led as the process itself. -/
lemma leads_map {f : ρ → σ} {p : Process Q R ρ} {log : List (Q × R)} {p' : Process Q R σ}
    (h : Leads (p.map f) log p') : ∃ p₀, Leads p log p₀ ∧ p' = p₀.map f := by
  generalize hm : p.map f = m at h
  induction h generalizing p with
  | refl m => exact ⟨p, .refl p, hm.symm⟩
  | ask q next a _ ih =>
      cases p with
      | done r => cases hm
      | ask q₀ next₀ =>
          obtain ⟨rfl, rfl⟩ := Process.ask.inj hm
          obtain ⟨p₀, h₀, hp⟩ := ih rfl
          exact ⟨p₀, .ask q₀ next₀ a h₀, hp⟩

end MarineDelivery.Processes
