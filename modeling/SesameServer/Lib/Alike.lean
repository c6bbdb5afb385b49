import SesameServer.Lib.Outcome

/- Two runs of programs that carry a state and may stop with an error, side by side.

   `Alike R x y` says that the outcomes `x` and `y` are values and states that `R` relates, or
   the same error. One rule for each statement of a `do` block takes two programs apart
   together; where a statement hands on something of the states, the two may hand on different
   things, and the rule asks for the rest under what they handed on. -/
namespace Outcome

variable {ε σ τ α β γ δ : Type}

inductive Alike (R : α → σ → β → τ → Prop) : EStateM.Result ε σ α → EStateM.Result ε τ β → Prop
  | ok {a : α} {s : σ} {b : β} {t : τ} (related : R a s b t) : Alike R (.ok a s) (.ok b t)
  | error {e : ε} {s : σ} {t : τ} : Alike R (.error e s) (.error e t)

/-- The same value, and related states. -/
def Same (R : σ → τ → Prop) (a : α) (s : σ) (b : α) (t : τ) : Prop := a = b ∧ R s t

namespace Alike

variable {R : β → σ → δ → τ → Prop} {s s' : σ} {t t' : τ} {f : α → EStateM ε σ β} {g : γ → EStateM ε τ δ}

protected theorem pure {a : β} {b : δ} (h : R a s b t) :
    Alike R ((pure a : EStateM ε σ β) s) ((pure b : EStateM ε τ δ) t) := .ok h

protected theorem bind {x : EStateM ε σ α} {y : EStateM ε τ γ} {Q : α → σ → γ → τ → Prop}
    (h : Alike Q (x s) (y t)) (rest : ∀ a s b t, Q a s b t → Alike R (f a s) (g b t)) :
    Alike R ((x >>= f) s) ((y >>= g) t) := by
  show Alike R (EStateM.bind x f s) (EStateM.bind y g t)
  unfold EStateM.bind
  generalize x s = rx at h
  generalize y t = ry at h
  cases h with
  | ok related => exact rest _ _ _ _ related
  | error => exact .error

/-- Two parts that are known to end well, and then the rest. -/
protected theorem run {x : EStateM ε σ α} {y : EStateM ε τ γ} {a : α} {c : γ} (hx : x s = .ok a s')
    (hy : y t = .ok c t') (rest : Alike R (f a s') (g c t')) :
    Alike R ((x >>= f) s) ((y >>= g) t) := by
  rw [bind_run hx, bind_run hy]
  exact rest

protected theorem get {f : σ → EStateM ε σ β} {g : τ → EStateM ε τ δ} (rest : Alike R (f s s) (g t t)) :
    Alike R ((get >>= f) s) ((get >>= g) t) := rest

protected theorem set {f : PUnit → EStateM ε σ β} {g : PUnit → EStateM ε τ δ}
    (rest : Alike R (f ⟨⟩ s') (g ⟨⟩ t')) : Alike R ((set s' >>= f) s) ((set t' >>= g) t) := rest

protected theorem modify {f : PUnit → EStateM ε σ β} {g : PUnit → EStateM ε τ δ} {u : σ → σ}
    {v : τ → τ} (rest : Alike R (f ⟨⟩ (u s)) (g ⟨⟩ (v t))) :
    Alike R ((modify u >>= f) s) ((modify v >>= g) t) := rest

protected theorem refuse {f : Unit → EStateM ε σ β} {g : Unit → EStateM ε τ δ} {c c' : Prop}
    [Decidable c] [Decidable c'] {e : ε} (h : c ↔ c') (rest : ¬c → Alike R (f () s) (g () t)) :
    Alike R ((refuse c e >>= f) s) ((refuse c' e >>= g) t) := by
  by_cases hc : c
  · have hc' := h.mp hc
    show Alike R (EStateM.bind (refuse c e) f s) (EStateM.bind (refuse c' e) g t)
    rw [EStateM.bind, EStateM.bind, refuse, refuse, if_pos hc, if_pos hc']
    exact .error
  · have hc' : ¬c' := fun h' => hc (h.mpr h')
    rw [bind_run (refuse_run hc), bind_run (refuse_run hc')]
    exact rest hc

/-- What is needed is there for both, and related, or for neither. -/
protected theorem need {Q : α → γ → Prop} {o : Option α} {o' : Option γ} {e : ε} (h : Option.Rel Q o o')
    (rest : ∀ a c, Q a c → Alike R (f a s) (g c t)) :
    Alike R ((need o e >>= f) s) ((need o' e >>= g) t) := by
  cases h with
  | none => exact .error
  | some h => exact rest _ _ h

theorem lift_same {g : α → EStateM ε τ δ} {r r' : Except ε α} (h : r = r')
    (rest : ∀ a, r = .ok a → Alike R (f a s) (g a t)) :
    Alike R ((lift r >>= f) s) ((lift r' >>= g) t) := by
  subst h
  cases r with
  | error e => exact .error
  | ok a => exact rest a rfl

theorem need_same {g : α → EStateM ε τ δ} {o o' : Option α} {e : ε} (h : o = o')
    (rest : ∀ a, o = some a → Alike R (f a s) (g a t)) :
    Alike R ((need o e >>= f) s) ((need o' e >>= g) t) := by
  subst h
  cases o with
  | none => exact .error
  | some a => exact rest a rfl

theorem mono {R Q : α → σ → γ → τ → Prop} {x : EStateM.Result ε σ α} {y : EStateM.Result ε τ γ}
    (h : Alike R x y) (weaker : ∀ a s b t, R a s b t → Q a s b t) : Alike Q x y := by
  cases h with
  | ok related => exact .ok (weaker _ _ _ _ related)
  | error => exact .error

end Alike

end Outcome
