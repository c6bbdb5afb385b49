import Mathlib.Init

/- Scripts that ask an environment, one call after another.

   A call is answered or fails; a script that does not catch the failure fails with it. The
   environment has a state of its own, and `step` says which answers it may give and how it moves:
   `none` is an answer that it never gives. A script may be stopped before any of its calls.

   1. `Prog`, `call`, `catchWith` — scripts. `Calls safe p`: `p` only makes calls that are `safe`.
   2. `Runs step s p s' out` — how a run ends.
   3. `Spec step I E P p R` — from `P` a run that returns ends with `R`, one that fails with `E`,
      and one that is stopped with `I`. One rule for each way a script is made.
   4. `run` — a run under an environment that answers by a function. -/
namespace Script

variable {Q : Type} {A : Q → Type} {ε σ α β : Type}

inductive Prog (Q : Type) (A : Q → Type) (ε α : Type)
  | done (a : α)
  | fail (e : ε)
  | ask (q : Q) (next : Except ε (A q) → Prog Q A ε α)

namespace Prog

def bind : Prog Q A ε α → (α → Prog Q A ε β) → Prog Q A ε β
  | .done a, f => f a
  | .fail e, _ => .fail e
  | .ask q next, f => .ask q fun r => (next r).bind f

instance : Monad (Prog Q A ε) where
  pure := .done
  bind := bind

/-- `await io.q()`. -/
def call (q : Q) : Prog Q A ε (A q) :=
  .ask q fun
    | .ok a => .done a
    | .error e => .fail e

/-- `try { p } catch (e) { h(e) }`. -/
def catchWith : Prog Q A ε α → (ε → Prog Q A ε α) → Prog Q A ε α
  | .done a, _ => .done a
  | .fail e, h => h e
  | .ask q next, h => .ask q fun r => (next r).catchWith h

def ofExcept : Except ε α → Prog Q A ε α
  | .ok a => .done a
  | .error e => .fail e

/-- Every call that the script can make is `safe`. -/
def Calls (safe : Q → Prop) : Prog Q A ε α → Prop
  | .done _ => True
  | .fail _ => True
  | .ask q next => safe q ∧ ∀ r, (next r).Calls safe

variable {safe : Q → Prop}

theorem calls_call {q : Q} (h : safe q) : (call q : Prog Q A ε (A q)).Calls safe := by
  refine ⟨h, fun r => ?_⟩
  cases r <;> exact trivial

variable {p : Prog Q A ε α}

theorem calls_bind {f : α → Prog Q A ε β} (hp : p.Calls safe)
    (hf : ∀ a, (f a).Calls safe) : (p >>= f).Calls safe := by
  induction p with
  | done a => exact hf a
  | fail e => exact trivial
  | ask q next ih => exact ⟨hp.1, fun r => ih r (hp.2 r)⟩

theorem calls_catchWith {h : ε → Prog Q A ε α} (hp : p.Calls safe)
    (hh : ∀ e, (h e).Calls safe) : (p.catchWith h).Calls safe := by
  induction p with
  | done a => exact trivial
  | fail e => exact hh e
  | ask q next ih => exact ⟨hp.1, fun r => ih r (hp.2 r)⟩

theorem calls_ofExcept (x : Except ε α) : (ofExcept x : Prog Q A ε α).Calls safe := by
  cases x <;> exact trivial

theorem Calls.mono {safe' : Q → Prop} (h : p.Calls safe)
    (weaker : ∀ q, safe q → safe' q) : p.Calls safe' := by
  induction p with
  | done a => exact trivial
  | fail e => exact trivial
  | ask q next ih => exact ⟨weaker q h.1, fun r => ih r (h.2 r)⟩

end Prog

structure Event (Q : Type) (A : Q → Type) (ε : Type) where
  call : Q
  answer : Except ε (A call)

inductive Outcome (ε α : Type)
  | returned (a : α)
  | failed (e : ε)
  | stopped

variable (step : σ → Event Q A ε → Option σ)

inductive Runs : σ → Prog Q A ε α → σ → Outcome ε α → Prop
  | done (s : σ) (a : α) : Runs s (.done a) s (.returned a)
  | fail (s : σ) (e : ε) : Runs s (.fail e) s (.failed e)
  | stop (s : σ) (q : Q) (next : Except ε (A q) → Prog Q A ε α) : Runs s (.ask q next) s .stopped
  | ask {s s' s'' : σ} {q : Q} {next : Except ε (A q) → Prog Q A ε α} {answer : Except ε (A q)}
      {out : Outcome ε α} (answered : step s ⟨q, answer⟩ = some s')
      (rest : Runs s' (next answer) s'' out) : Runs s (.ask q next) s'' out

variable {step}

variable {p : Prog Q A ε α}

theorem Runs.bind {f : α → Prog Q A ε β} {s s' : σ} {out : Outcome ε β}
    (h : Runs step s (p >>= f) s' out) :
    (∃ a s₁, Runs step s p s₁ (.returned a) ∧ Runs step s₁ (f a) s' out) ∨
    (∃ e, out = .failed e ∧ Runs step s p s' (.failed e)) ∨
    (out = .stopped ∧ Runs step s p s' .stopped) := by
  induction p generalizing s with
  | done a => exact .inl ⟨a, s, .done s a, h⟩
  | fail e =>
    cases h
    exact .inr (.inl ⟨e, rfl, .fail _ e⟩)
  | ask q next ih =>
    cases h with
    | stop => exact .inr (.inr ⟨rfl, .stop _ q next⟩)
    | ask answered rest =>
      rcases ih _ rest with ⟨a, s₁, first, last⟩ | ⟨e, rfl, first⟩ | ⟨rfl, first⟩
      · exact .inl ⟨a, s₁, .ask answered first, last⟩
      · exact .inr (.inl ⟨e, rfl, .ask answered first⟩)
      · exact .inr (.inr ⟨rfl, .ask answered first⟩)

theorem Runs.catchWith {h : ε → Prog Q A ε α} {s s' : σ} {out : Outcome ε α}
    (runs : Runs step s (p.catchWith h) s' out) :
    (∃ e s₁, Runs step s p s₁ (.failed e) ∧ Runs step s₁ (h e) s' out) ∨
    (Runs step s p s' out ∧ ∀ e, out ≠ .failed e) := by
  induction p generalizing s with
  | done a =>
    cases runs
    exact .inr ⟨.done _ a, fun _ h => by cases h⟩
  | fail e => exact .inl ⟨e, s, .fail s e, runs⟩
  | ask q next ih =>
    cases runs with
    | stop => exact .inr ⟨.stop _ q next, fun _ h => by cases h⟩
    | ask answered rest =>
      rcases ih _ rest with ⟨e, s₁, first, last⟩ | ⟨first, caught⟩
      · exact .inl ⟨e, s₁, .ask answered first, last⟩
      · exact .inr ⟨.ask answered first, caught⟩

/-! Conditions. -/

/-- What holds at the end of a run, whichever way it ends. -/
def Outcome.Ends (I : σ → Prop) (E : ε → σ → Prop) (R : α → σ → Prop) : Outcome ε α → σ → Prop
  | .returned a, s => R a s
  | .failed e, s => E e s
  | .stopped, s => I s

variable (step)

def Spec (I : σ → Prop) (E : ε → σ → Prop) (P : σ → Prop) (p : Prog Q A ε α)
    (R : α → σ → Prop) : Prop :=
  ∀ s s' out, P s → Runs step s p s' out → out.Ends I E R s'

/-- A script whose every stop and failure leaves `I`. -/
abbrev Within (I P : σ → Prop) (p : Prog Q A ε α) (R : α → σ → Prop) : Prop :=
  Spec step I (fun _ => I) P p R

variable {step} {I : σ → Prop} {E E' : ε → σ → Prop} {P P' : σ → Prop} {R R' : α → σ → Prop}

namespace Spec

variable {p : Prog Q A ε α}

theorem conseq (h : Spec step I E P p R) (pre : ∀ s, P' s → P s)
    (post : ∀ a s, R a s → R' a s) : Spec step I E P' p R' := by
  intro s s' out hp runs
  have := h s s' out (pre s hp) runs
  cases out with
  | returned a => exact post a s' this
  | failed e => exact this
  | stopped => exact this

theorem pre (h : Spec step I E P p R) (pre : ∀ s, P' s → P s) :
    Spec step I E P' p R := h.conseq pre fun _ _ h => h

/-- A precondition may be taken out of the run. -/
theorem assume {φ : Prop} (known : ∀ s, P s → φ) (h : φ → Spec step I E P p R) :
    Spec step I E P p R := fun s s' out hp runs => h (known s hp) s s' out hp runs

theorem pure {a : α} (h : ∀ s, P s → R a s) : Spec step I E P (pure a : Prog Q A ε α) R := by
  intro s s' out hp runs
  cases runs
  exact h s hp

theorem fail {e : ε} (h : ∀ s, P s → E e s) : Spec step I E P (.fail e : Prog Q A ε α) R := by
  intro s s' out hp runs
  cases runs
  exact h s hp

theorem call {q : Q} {R : A q → σ → Prop} (stop : ∀ s, P s → I s)
    (ok : ∀ s a s', P s → step s ⟨q, .ok a⟩ = some s' → R a s')
    (err : ∀ s e s', P s → step s ⟨q, .error e⟩ = some s' → E e s') :
    Spec step I E P (Prog.call q) R := by
  intro s s' out hp runs
  cases runs with
  | stop => exact stop s hp
  | @ask _ _ _ _ _ answer _ answered rest =>
    cases answer with
    | ok a =>
      cases rest
      exact ok s a _ hp answered
    | error e =>
      cases rest
      exact err s e _ hp answered

theorem bind {f : α → Prog Q A ε β} {R : β → σ → Prop} (hp : Spec step I E P p R')
    (hf : ∀ a, Spec step I E (R' a) (f a) R) : Spec step I E P (p >>= f) R := by
  intro s s' out pre runs
  rcases runs.bind with ⟨a, s₁, first, last⟩ | ⟨e, rfl, first⟩ | ⟨rfl, first⟩
  · exact hf a s₁ s' out (hp s s₁ _ pre first) last
  · exact hp s s' _ pre first
  · exact hp s s' _ pre first

theorem catchWith {h : ε → Prog Q A ε α} (hp : Spec step I E' P p R)
    (hh : ∀ e, Spec step I E (E' e) (h e) R) : Spec step I E P (p.catchWith h) R := by
  intro s s' out pre runs
  rcases runs.catchWith with ⟨e, s₁, first, last⟩ | ⟨first, caught⟩
  · exact hh e s₁ s' out (hp s s₁ _ pre first) last
  · have := hp s s' out pre first
    cases out with
    | returned a => exact this
    | failed e => exact absurd rfl (caught e)
    | stopped => exact this

theorem ofExcept {x : Except ε α} (err : ∀ s e, P s → E e s) :
    Spec step I E P (Prog.ofExcept x) fun a s => P s ∧ x = .ok a := by
  cases x with
  | ok a => exact pure fun s hp => ⟨hp, rfl⟩
  | error e => exact fail fun s hp => err s e hp

/-- What every safe call keeps, a script of safe calls keeps. -/
theorem of_calls {safe : Q → Prop} {K : σ → Prop} (calls : p.Calls safe)
    (keeps : ∀ s e s', safe e.call → K s → step s e = some s' → K s') (weaken : ∀ s, K s → I s) :
    Within step I K p fun _ => K := by
  intro s s' out hk runs
  induction runs with
  | done => exact hk
  | fail => exact weaken _ hk
  | stop => exact weaken _ hk
  | ask answered rest ih => exact ih (calls.2 _) (keeps _ _ _ calls.1 hk answered)

end Spec

/-! Runs by a function. -/

/-- The run in which the environment answers by `reply` and the script is stopped after `limit`
    calls; `none` if an answer is not one that the environment gives. -/
def run (step : σ → Event Q A ε → Option σ) (reply : σ → (q : Q) → Except ε (A q)) :
    Nat → Prog Q A ε α → σ → Option (σ × Outcome ε α)
  | _, .done a, s => some (s, .returned a)
  | _, .fail e, s => some (s, .failed e)
  | 0, .ask _ _, s => some (s, .stopped)
  | limit + 1, .ask q next, s =>
    match step s ⟨q, reply s q⟩ with
    | none => none
    | some s' => run step reply limit (next (reply s q)) s'

theorem run_runs {reply : σ → (q : Q) → Except ε (A q)} {limit : Nat} {s s' : σ}
    {out : Outcome ε α} (h : run step reply limit p s = some (s', out)) : Runs step s p s' out := by
  induction limit generalizing p s with
  | zero =>
    cases p with
    | done a => cases h; exact .done _ _
    | fail e => cases h; exact .fail _ _
    | ask q next => cases h; exact .stop _ _ _
  | succ limit ih =>
    cases p with
    | done a => cases h; exact .done _ _
    | fail e => cases h; exact .fail _ _
    | ask q next =>
      simp only [run] at h
      split at h
      · cases h
      · next s₁ answered => exact .ask answered (ih h)

end Script
