import Mathlib.Init

/- Programs that work on a state which outlives them, and may be stopped between
   any two of their operations: by a crash, after which nothing more of the
   program runs, or by one operation that returns an error instead of taking
   effect, which the program sees and may handle.

   1. `op` is one atomic operation. The world says how many more operations run
      before the crash and before the failing one; neither need come.
   2. `attempt x` is `_ = x`, `onError x h` is `if err := x; err != nil { h(err) }`,
      `forEach` is a loop. None of them catches a crash.
   3. `Runs faults P x Q E C`: started in a state with `P`, a run of `x` that
      returns ends with `Q`, one that returns an error with `E`, and one that a
      crash cuts short leaves `C` behind. With `faults = false` no operation is
      made to fail, so what is left of `E` are the program's own errors.
   4. `Runs.completes`: without a crash and without errors there is a result. -/
namespace Crash

/-- Why a program stopped early. -/
inductive Stop (ε : Type) where
  | crash
  | error (e : ε)

/-- A state, and the operations left until a crash and until a failure. -/
structure World (σ : Type) where
  state : σ
  crashIn : Option Nat
  failIn : Option Nat

def World.calm {σ : Type} (s : σ) : World σ := ⟨s, none, none⟩

def World.crashing {σ : Type} (s : σ) (k : Nat) : World σ := ⟨s, some k, none⟩

def World.failing {σ : Type} (s : σ) (k : Nat) : World σ := ⟨s, none, some k⟩

abbrev Prog (ε σ : Type) := EStateM (Stop ε) (World σ)

variable {ε σ α β : Type}

def tick : Option Nat → Option Nat := Option.map (· - 1)

/-- One atomic operation: `f` on the state, or the error `fault`. -/
def op (fault : ε) (f : σ → Except ε (α × σ)) : Prog ε σ α := fun w =>
  if w.crashIn = some 0 then .error .crash w
  else if w.failIn = some 0 then .error (.error fault) ⟨w.state, tick w.crashIn, none⟩
  else match f w.state with
    | .ok (a, s) => .ok a ⟨s, tick w.crashIn, tick w.failIn⟩
    | .error e => .error (.error e) ⟨w.state, tick w.crashIn, tick w.failIn⟩

def fail (e : ε) : Prog ε σ α := throw (.error e)

/-- `if err := x; err != nil { return h(err) }`. -/
def onError (x : Prog ε σ α) (h : ε → Prog ε σ α) : Prog ε σ α := fun w =>
  match x w with
  | .error (.error e) w' => h e w'
  | r => r

/-- `_ = x`. -/
def attempt (x : Prog ε σ Unit) : Prog ε σ Unit := onError x fun _ => pure ()

/-- `for _, a := range l { body(a) }`. -/
def forEach : List α → (α → Prog ε σ Unit) → Prog ε σ Unit
  | [], _ => pure ()
  | a :: l, body => do
    body a
    forEach l body

/-- What is not to come in `w` is not to come in `w'`. -/
structure Later (w w' : World σ) : Prop where
  crashIn : w.crashIn = none → w'.crashIn = none
  failIn : w.failIn = none → w'.failIn = none

theorem Later.refl (w : World σ) : Later w w := ⟨id, id⟩

variable {w : World σ}

theorem Later.trans {w₁ w₂ : World σ} (h : Later w w₁) (h₁ : Later w₁ w₂) : Later w w₂ :=
  ⟨fun hn => h₁.crashIn (h.crashIn hn), fun hn => h₁.failIn (h.failIn hn)⟩

theorem Later.tick (w : World σ) (s : σ) : Later w ⟨s, tick w.crashIn, tick w.failIn⟩ :=
  ⟨fun h => by simp [Crash.tick, h], fun h => by simp [Crash.tick, h]⟩

/-- The runs of `x` from a state with `P`. -/
def Runs (faults : Bool) (P : σ → Prop) (x : Prog ε σ α) (Q : α → σ → Prop)
    (E : ε → World σ → Prop) (C : σ → Prop) : Prop :=
  ∀ w, (w.failIn = none ∨ faults = true) → P w.state →
    match x w with
    | .ok a w' => Q a w'.state ∧ Later w w'
    | .error .crash w' => C w'.state ∧ w.crashIn ≠ none
    | .error (.error e) w' => E e w' ∧ Later w w'

namespace Runs

variable {faults : Bool} {P P' : σ → Prop} {Q Q' : α → σ → Prop} {E E' : ε → World σ → Prop}
  {C C' : σ → Prop} {x : Prog ε σ α}

theorem mono (hx : Runs faults P x Q E C) (pre : ∀ s, P' s → P s) (post : ∀ a s, Q a s → Q' a s)
    (err : ∀ e w, E e w → E' e w) (crash : ∀ s, C s → C' s) : Runs faults P' x Q' E' C' := by
  intro w hf hp
  have h := hx w hf (pre _ hp)
  split at h
  · exact ⟨post _ _ h.1, h.2⟩
  · exact ⟨crash _ h.1, h.2⟩
  · exact ⟨err _ _ h.1, h.2⟩

theorem conseq (hx : Runs faults P x Q E C) (pre : ∀ s, P' s → P s)
    (post : ∀ a s, Q a s → Q' a s) : Runs faults P' x Q' E C :=
  hx.mono pre post (fun _ _ h => h) (fun _ h => h)

theorem weaken (hx : Runs faults P x Q E C) (post : ∀ a s, Q a s → Q' a s) :
    Runs faults P x Q' E C :=
  hx.conseq (fun _ h => h) post

theorem crashing (hx : Runs faults P x Q E C) (crash : ∀ s, C s → C' s) : Runs faults P x Q E C' :=
  hx.mono (fun _ h => h) (fun _ _ h => h) (fun _ _ h => h) crash

theorem assuming {p : Prop} (hx : p → Runs faults P x Q E C) :
    Runs faults (fun s => p ∧ P s) x Q E C :=
  fun w hf hp => hx hp.1 w hf hp.2

theorem exists_pre {ι : Type} {R : ι → σ → Prop} (hx : ∀ i, Runs faults (R i) x Q E C) :
    Runs faults (fun s => ∃ i, R i s) x Q E C :=
  fun w hf ⟨i, hi⟩ => hx i w hf hi

theorem pure_runs {a : α} (h : ∀ s, P s → Q a s) : Runs faults P (pure a : Prog ε σ α) Q E C :=
  fun w _ hp => ⟨h _ hp, .refl w⟩

theorem fail_runs {e : ε} (h : ∀ w : World σ, (w.failIn = none ∨ faults = true) → P w.state → E e w) :
    Runs faults P (fail e : Prog ε σ α) Q E C :=
  fun w hf hp => ⟨h w hf hp, .refl w⟩

theorem bind_runs {R : α → σ → Prop} {f : α → Prog ε σ β} {Q : β → σ → Prop}
    (hx : Runs faults P x R E C) (hf : ∀ a, Runs faults (R a) (f a) Q E C) :
    Runs faults P (x >>= f) Q E C := by
  intro w hw hp
  have h := hx w hw hp
  show match EStateM.bind x f w with
    | .ok a w' => Q a w'.state ∧ Later w w'
    | .error .crash w' => C w'.state ∧ w.crashIn ≠ none
    | .error (.error e) w' => E e w' ∧ Later w w'
  unfold EStateM.bind
  cases hx : x w with
  | ok a w₁ =>
    rw [hx] at h
    obtain ⟨hr, hl⟩ := h
    have h₁ := hf a w₁ (hw.imp_left hl.failIn) hr
    dsimp only
    split at h₁
    · exact ⟨h₁.1, hl.trans h₁.2⟩
    · exact ⟨h₁.1, fun hn => h₁.2 (hl.crashIn hn)⟩
    · exact ⟨h₁.1, hl.trans h₁.2⟩
  | error e w₁ =>
    rw [hx] at h
    cases e <;> exact h

/-- An atomic operation either has not begun or is done. -/
theorem op_runs {fault : ε} {f : σ → Except ε (α × σ)}
    (ok : ∀ s a s', P s → f s = .ok (a, s') → Q a s')
    (err : ∀ (w : World σ) e, (w.failIn = none ∨ faults = true) → P w.state →
      f w.state = .error e → E e w)
    (failed : ∀ w : World σ, faults = true → w.failIn = none → P w.state → E fault w)
    (crash : ∀ s, P s → C s) : Runs faults P (op fault f) Q E C := by
  intro w hf hp
  unfold op
  by_cases hc : w.crashIn = some 0
  · rw [if_pos hc]
    exact ⟨crash _ hp, by simp [hc]⟩
  rw [if_neg hc]
  by_cases hk : w.failIn = some 0
  · rw [if_pos hk]
    have hfaults : faults = true := hf.resolve_left (by simp [hk])
    exact ⟨failed ⟨w.state, tick w.crashIn, none⟩ hfaults rfl hp, (Later.tick w w.state).crashIn,
      fun _ => rfl⟩
  rw [if_neg hk]
  have hl := Later.tick w
  cases hs : f w.state with
  | ok r => exact ⟨ok _ _ _ hp hs, hl r.2⟩
  | error e => exact ⟨err ⟨w.state, _, _⟩ e (hf.imp_left (hl w.state).failIn) hp hs, hl w.state⟩

theorem onError_runs {h : ε → Prog ε σ α} {F : ε → World σ → Prop} {I : ε → σ → Prop}
    (hx : Runs faults P x Q F C) (quiet : ∀ e w, F e w → w.failIn = none ∧ I e w.state)
    (hh : ∀ e, Runs false (I e) (h e) Q E C) : Runs faults P (onError x h) Q E C := by
  intro w hf hp
  have hr := hx w hf hp
  unfold onError
  cases hxw : x w with
  | ok a w' =>
    rw [hxw] at hr
    exact hr
  | error e w' =>
    rw [hxw] at hr
    cases e with
    | crash => exact hr
    | error e =>
      obtain ⟨hF, hl⟩ := hr
      obtain ⟨hquiet, hI⟩ := quiet e w' hF
      have h₁ := hh e w' (Or.inl hquiet) hI
      dsimp only
      split at h₁
      · exact ⟨h₁.1, hl.trans h₁.2⟩
      · exact ⟨h₁.1, fun hn => h₁.2 (hl.crashIn hn)⟩
      · exact ⟨h₁.1, hl.trans h₁.2⟩

/-- An ignored error leaves what the failed program left. -/
theorem attempt_runs {x : Prog ε σ Unit} {Q : Unit → σ → Prop}
    (hx : Runs faults P x Q (fun _ w => Q () w.state) C) : Runs faults P (attempt x) Q E C := by
  intro w hf hp
  have hr := hx w hf hp
  unfold attempt onError
  cases hxw : x w with
  | ok a w' =>
    rw [hxw] at hr
    exact hr
  | error e w' =>
    rw [hxw] at hr
    cases e with
    | crash => exact hr
    | error e => exact hr

/-- The loop rule: `I` of what is left to do. -/
theorem forEach_runs {I : List α → σ → Prop} {body : α → Prog ε σ Unit}
    (step : ∀ a l, Runs faults (I (a :: l)) (body a) (fun _ => I l) E C) :
    ∀ l, Runs faults (I l) (forEach l body) (fun _ => I []) E C
  | [] => pure_runs fun _ h => h
  | a :: l => bind_runs (step a l) fun _ => forEach_runs step l

variable {s : σ}

/-- **A result.** With neither crash nor error to come, the program returns. -/
theorem completes (hx : Runs false P x Q (fun _ _ => False) C) (hp : P s) :
    ∃ a s', x (.calm s) = .ok a (.calm s') ∧ Q a s' := by
  have h := hx (.calm s) (Or.inl rfl) hp
  cases hxw : x (.calm s) with
  | ok a w' =>
    rw [hxw] at h
    obtain ⟨hq, hl⟩ := h
    obtain ⟨s', c, f⟩ := w'
    obtain rfl : c = none := hl.crashIn rfl
    obtain rfl : f = none := hl.failIn rfl
    exact ⟨a, s', rfl, hq⟩
  | error e w' =>
    rw [hxw] at h
    cases e with
    | crash => exact absurd rfl h.2
    | error e => exact h.1.elim

theorem returned (hx : Runs false P x Q E C) {a : α} (hp : P s) (h : x (.calm s) = .ok a w) :
    Q a w.state := by
  have hr := hx (.calm s) (Or.inl rfl) hp
  rw [h] at hr
  exact hr.1

theorem crashed (hx : Runs false P x Q E C) {k : Nat} (hp : P s)
    (h : x (.crashing s k) = .error .crash w) : C w.state := by
  have hr := hx (.crashing s k) (Or.inl rfl) hp
  rw [h] at hr
  exact hr.1

theorem failed (hx : Runs true P x Q E C) {k : Nat} {e : ε} (hp : P s)
    (h : x (.failing s k) = .error (.error e) w) : E e w := by
  have hr := hx (.failing s k) (Or.inr rfl) hp
  rw [h] at hr
  exact hr.1

end Runs

/-! Reading off a run. -/

def last : EStateM.Result (Stop ε) (World σ) α → World σ
  | .ok _ w => w
  | .error _ w => w

def crashes : EStateM.Result (Stop ε) (World σ) α → Bool
  | .error .crash _ => true
  | _ => false

def returns : EStateM.Result (Stop ε) (World σ) α → Option ε
  | .error (.error e) _ => some e
  | _ => none

variable {r : EStateM.Result (Stop ε) (World σ) α}

theorem eq_error {e : ε} (h : returns r = some e) : r = .error (.error e) (last r) := by
  cases r with
  | ok a w => cases h
  | error e' w =>
    cases e' with
    | crash => cases h
    | error e' => cases h; rfl

def result : EStateM.Result (Stop ε) (World σ) α → Option α
  | .ok a _ => some a
  | _ => none

theorem eq_ok {a : α} (h : result r = some a) : r = .ok a (last r) := by
  cases r with
  | ok b w => cases h; rfl
  | error e w => cases h

theorem eq_crash (h : crashes r = true) : r = .error .crash (last r) := by
  cases r with
  | ok a w => cases h
  | error e w =>
    cases e with
    | crash => rfl
    | error e => cases h

end Crash
