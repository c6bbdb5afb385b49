import Mathlib.Init

/- Programs that carry a state and may stop with an error, in the core monad
   `EStateM`. A Go function that mutates through a pointer and returns `error`
   is one of these: the state a failed run leaves behind is part of its outcome
   (`.error e s`), and what the caller does with it is the caller's business.

   1. `bind_ok`, `bind_error` and their companions take a run of a `do` block
      apart, one statement at a time, so that no proof unfolds `EStateM`.
   2. `refuse c e` is the guard `if c { return e }`, `need o e` the one that hands on
      what it found, `onlyIf` and `forSome` are conditional statements, and `lift` runs
      a pure check.
   3. `Keeps R x` says that a run of `x` relates its first and last state by
      `R` whether it succeeds or fails. For a preorder `R` it passes through
      sequencing, so a fact about a whole operation is a fact about its parts.
   4. `Commits R S x` says that a run of `x` passes a point of no return: one
      that succeeds has passed it (`S`), one that fails may have stopped before
      it (`R`).
   5. `Fails R x` says that a failed run of `x` relates its states by `R`;
      `FailsClean x`, that it left the state alone, which holds of a program that
      checks before it writes. -/
namespace Outcome

variable {ε σ α β : Type}

/-- The guard `if c { return e }`. -/
def refuse (c : Prop) [Decidable c] (e : ε) : EStateM ε σ Unit :=
  if c then throw e else pure ()

/-- A pure check run inside a program. -/
def lift : Except ε α → EStateM ε σ α
  | .ok a => pure a
  | .error e => throw e

/-- The statement `if c { x }`. -/
def onlyIf (c : Prop) [Decidable c] (x : EStateM ε σ Unit) : EStateM ε σ Unit :=
  if c then x else pure ()

/-- The statement `if a, ok := o; ok { f(a) }`. -/
def forSome (o : Option α) (f : α → EStateM ε σ Unit) : EStateM ε σ Unit :=
  match o with
  | some a => f a
  | none => pure ()

/-- The guard `if !ok { return e }`, which hands on what was found. -/
def need (o : Option α) (e : ε) : EStateM ε σ α :=
  match o with
  | some a => pure a
  | none => throw e

/-! Taking a successful run apart. -/

variable {x : EStateM ε σ α} {f : α → EStateM ε σ β} {s s' : σ} {e : ε} {a : α} {u : Unit}

theorem bind_ok {b : β} : (x >>= f) s = .ok b s' ↔ ∃ a s₁, x s = .ok a s₁ ∧ f a s₁ = .ok b s' := by
  show EStateM.bind x f s = _ ↔ _
  unfold EStateM.bind
  cases h : x s with
  | ok a s₁ =>
    refine ⟨fun hf => ⟨a, s₁, rfl, hf⟩, fun ⟨a', s₁', he, hf⟩ => ?_⟩
    obtain ⟨rfl, rfl⟩ := EStateM.Result.ok.inj he
    exact hf
  | error e s₁ => simp

theorem bind_error : (x >>= f) s = .error e s' ↔
      x s = .error e s' ∨ ∃ a s₁, x s = .ok a s₁ ∧ f a s₁ = .error e s' := by
  show EStateM.bind x f s = _ ↔ _
  unfold EStateM.bind
  cases h : x s with
  | ok a s₁ =>
    refine ⟨fun hf => Or.inr ⟨a, s₁, rfl, hf⟩, fun hf => ?_⟩
    rcases hf with hf | ⟨a', s₁', he, hf⟩
    · cases hf
    · obtain ⟨rfl, rfl⟩ := EStateM.Result.ok.inj he
      exact hf
  | error e₁ s₁ => simp

theorem pure_ok {b : α} : (pure a : EStateM ε σ α) s = .ok b s' ↔ a = b ∧ s = s' := by
  show EStateM.Result.ok a s = _ ↔ _
  simp

theorem throw_ok {b : α} : (throw e : EStateM ε σ α) s = .ok b s' ↔ False := by
  show EStateM.Result.error e s = _ ↔ _
  simp

theorem throw_error {e' : ε} : (throw e : EStateM ε σ α) s = .error e' s' ↔ e = e' ∧ s = s' := by
  show EStateM.Result.error e s = _ ↔ _
  simp

theorem pure_error : (pure a : EStateM ε σ α) s = .error e s' ↔ False := by
  show EStateM.Result.ok a s = _ ↔ _
  simp

theorem get_ok {a : σ} : (get : EStateM ε σ σ) s = .ok a s' ↔ s = a ∧ s = s' := by
  show EStateM.Result.ok s s = _ ↔ _
  simp

theorem set_ok {a : σ} {u : PUnit} : (set a : EStateM ε σ PUnit) s = .ok u s' ↔ a = s' := by
  show EStateM.Result.ok PUnit.unit a = _ ↔ _
  simp

theorem modify_ok {f : σ → σ} {u : PUnit} :
    (modify f : EStateM ε σ PUnit) s = .ok u s' ↔ f s = s' := by
  show EStateM.Result.ok PUnit.unit (f s) = _ ↔ _
  simp

theorem get_error : (get : EStateM ε σ σ) s = .error e s' ↔ False := by
  show EStateM.Result.ok s s = _ ↔ _
  simp

theorem set_error {a : σ} : (set a : EStateM ε σ PUnit) s = .error e s' ↔ False := by
  show EStateM.Result.ok PUnit.unit a = _ ↔ _
  simp

theorem modify_error {f : σ → σ} : (modify f : EStateM ε σ PUnit) s = .error e s' ↔ False := by
  show EStateM.Result.ok PUnit.unit (f s) = _ ↔ _
  simp

variable {c : Prop} {r : Except ε α} {o : Option α}

theorem refuse_ok [Decidable c] : refuse c e s = .ok u s' ↔ ¬c ∧ s = s' := by
  unfold refuse
  by_cases h : c
  · simp [h, throw_ok]
  · simp [h, pure_ok]

theorem refuse_error [Decidable c] {e' : ε} :
    refuse c e s = .error e' s' ↔ c ∧ e = e' ∧ s = s' := by
  unfold refuse
  by_cases h : c
  · simp [h, throw_error]
  · simp [h, pure_error]

theorem lift_ok : lift r s = .ok a s' ↔ r = .ok a ∧ s = s' := by
  cases r with
  | ok b => simp [lift, pure_ok]
  | error e => simp [lift, throw_ok]

theorem lift_error : lift r s = .error e s' ↔ r = .error e ∧ s = s' := by
  cases r with
  | ok b => simp [lift, pure_error]
  | error e' => simp [lift, throw_error]

theorem onlyIf_ok [Decidable c] {x : EStateM ε σ Unit} :
    onlyIf c x s = .ok u s' ↔ (c ∧ x s = .ok u s') ∨ (¬c ∧ s = s') := by
  unfold onlyIf
  by_cases h : c
  · simp [h]
  · simp [h, pure_ok]

theorem forSome_ok {f : α → EStateM ε σ Unit} :
    forSome o f s = .ok u s' ↔ (∃ a, o = some a ∧ f a s = .ok u s') ∨ (o = none ∧ s = s') := by
  cases o <;> simp [forSome, pure_ok]

theorem need_ok : need o e s = .ok a s' ↔ o = some a ∧ s = s' := by
  cases o <;> simp [need, pure_ok, throw_ok]

/-! Building a successful run up. -/

theorem bind_run {s₁ : σ} (h : x s = .ok a s₁) : (x >>= f) s = f a s₁ := by
  show EStateM.bind x f s = _
  unfold EStateM.bind
  rw [h]

/-- A run whose first part ends well ends well if the rest does. -/
theorem bind_ends (h : ∃ a s₁, x s = .ok a s₁)
    (rest : ∀ a s₁, x s = .ok a s₁ → ∃ b s', f a s₁ = .ok b s') :
    ∃ b s', (x >>= f) s = .ok b s' := by
  obtain ⟨a, s₁, hx⟩ := h
  rw [bind_run hx]
  exact rest a s₁ hx

theorem refuse_run [Decidable c] (h : ¬c) :
    (refuse c e : EStateM ε σ Unit) s = .ok () s := refuse_ok.mpr ⟨h, rfl⟩

/-! The same for checks that carry no state. -/

/-- The guard `if c { return e }` of a pure check. -/
def check (c : Prop) [Decidable c] (e : ε) : Except ε Unit :=
  if c then .error e else .ok ()

theorem check_ok [Decidable c] : check c e = .ok u ↔ ¬c := by
  unfold check
  by_cases h : c <;> simp [h]

theorem except_bind_ok {x : Except ε α} {f : α → Except ε β} {b : β} :
    (x >>= f) = .ok b ↔ ∃ a, x = .ok a ∧ f a = .ok b := by
  show Except.bind x f = _ ↔ _
  unfold Except.bind
  cases x <;> simp

theorem mapM_ok {f : α → Except ε β} {l : List α} {r : List β} (h : l.mapM f = .ok r) :
    (∀ a ∈ l, ∃ b, f a = .ok b) ∧ ∀ b ∈ r, ∃ a, f a = .ok b := by
  induction l generalizing r with
  | nil =>
    obtain rfl : [] = r := Except.ok.inj h
    simp
  | cons a l ih =>
    rw [List.mapM_cons] at h
    obtain ⟨b, hb, h⟩ := except_bind_ok.mp h
    obtain ⟨bs, hbs, h⟩ := except_bind_ok.mp h
    obtain rfl := Except.ok.inj h
    exact ⟨List.forall_mem_cons.mpr ⟨⟨b, hb⟩, (ih hbs).1⟩, List.forall_mem_cons.mpr ⟨⟨a, hb⟩, (ih hbs).2⟩⟩

/-! What every run of a program keeps. -/

theorem bind_relates {S₁ E₁ S₂ E₂ S E : σ → σ → Prop} {x : EStateM ε σ α} {f : α → EStateM ε σ β}
    (hx : ∀ s, (∀ a s', x s = .ok a s' → S₁ s s') ∧ (∀ e s', x s = .error e s' → E₁ s s'))
    (hf : ∀ a s, (∀ b s', f a s = .ok b s' → S₂ s s') ∧ (∀ e s', f a s = .error e s' → E₂ s s'))
    (ok : ∀ {a b c}, S₁ a b → S₂ b c → S a c) (early : ∀ {a b}, E₁ a b → E a b)
    (late : ∀ {a b c}, S₁ a b → E₂ b c → E a c) (s : σ) :
    (∀ b s', (x >>= f) s = .ok b s' → S s s') ∧ (∀ e s', (x >>= f) s = .error e s' → E s s') := by
  refine ⟨fun b s' h => ?_, fun e s' h => ?_⟩
  · obtain ⟨a, s₁, h₁, h₂⟩ := bind_ok.mp h
    exact ok ((hx s).1 a s₁ h₁) ((hf a s₁).1 b s' h₂)
  · rcases bind_error.mp h with h₁ | ⟨a, s₁, h₁, h₂⟩
    · exact early ((hx s).2 e s' h₁)
    · exact late ((hx s).1 a s₁ h₁) ((hf a s₁).2 e s' h₂)

/-- Every run of `x` relates its first state to its last by `R`. -/
def Keeps (R : σ → σ → Prop) (x : EStateM ε σ α) : Prop :=
  ∀ s, (∀ a s', x s = .ok a s' → R s s') ∧ (∀ e s', x s = .error e s' → R s s')

namespace Keeps

variable {R : σ → σ → Prop}

theorem pure_keeps (refl : ∀ s, R s s) (a : α) : Keeps R (pure a : EStateM ε σ α) := by
  refine fun s => ⟨fun b s' h => ?_, fun e s' h => (pure_error.mp h).elim⟩
  obtain ⟨_, rfl⟩ := pure_ok.mp h
  exact refl s

theorem throw_keeps (refl : ∀ s, R s s) (e : ε) : Keeps R (throw e : EStateM ε σ α) := by
  refine fun s => ⟨fun b s' h => (throw_ok.mp h).elim, fun e' s' h => ?_⟩
  obtain ⟨_, rfl⟩ := throw_error.mp h
  exact refl s

theorem refuse_keeps (refl : ∀ s, R s s) (c : Prop) [Decidable c] (e : ε) :
    Keeps R (refuse c e : EStateM ε σ Unit) := by
  unfold refuse
  split
  · exact throw_keeps refl e
  · exact pure_keeps refl ()

theorem lift_keeps (refl : ∀ s, R s s) (r : Except ε α) : Keeps R (lift r : EStateM ε σ α) := by
  cases r with
  | ok a => exact pure_keeps refl a
  | error e => exact throw_keeps refl e

theorem bind_keeps (trans : ∀ {a b c}, R a b → R b c → R a c) {x : EStateM ε σ α}
    {f : α → EStateM ε σ β} (hx : Keeps R x) (hf : ∀ a, Keeps R (f a)) : Keeps R (x >>= f) :=
  bind_relates hx hf trans id trans

theorem get_keeps (refl : ∀ s, R s s) : Keeps R (get : EStateM ε σ σ) := by
  refine fun s => ⟨fun b s' h => ?_, fun e s' h => (get_error.mp h).elim⟩
  obtain ⟨_, rfl⟩ := get_ok.mp h
  exact refl s

theorem onlyIf_keeps (refl : ∀ s, R s s) [Decidable c] {x : EStateM ε σ Unit} (hx : Keeps R x) :
    Keeps R (onlyIf c x) := by
  unfold onlyIf
  split
  · exact hx
  · exact pure_keeps refl ()

theorem forSome_keeps (refl : ∀ s, R s s) {f : α → EStateM ε σ Unit} (hf : ∀ a, Keeps R (f a)) :
    Keeps R (forSome o f) := by
  cases o with
  | none => exact pure_keeps refl ()
  | some a => exact hf a

end Keeps

/-! Programs with a point of no return. -/

/-- A run of `x` that succeeds relates its first state to its last by `S`; one that
    fails, by `R` if it stopped early and else by `S`. -/
def Commits (R S : σ → σ → Prop) (x : EStateM ε σ α) : Prop :=
  ∀ s, (∀ a s', x s = .ok a s' → S s s') ∧ (∀ e s', x s = .error e s' → R s s' ∨ S s s')

namespace Commits

variable {R S Q : σ → σ → Prop}

theorem after {x : EStateM ε σ α} {f : α → EStateM ε σ β} (hx : Keeps R x)
    (hf : ∀ a, Commits R S (f a)) (trans : ∀ {a b c}, R a b → R b c → R a c)
    (absorb : ∀ {a b c}, R a b → S b c → S a c) : Commits R S (x >>= f) :=
  bind_relates hx hf absorb Or.inl fun hr => Or.imp (trans hr) (absorb hr)

theorem andThen {x : EStateM ε σ α} {f : α → EStateM ε σ β} (hx : Commits R S x)
    (hf : ∀ a, Keeps Q (f a)) (absorb : ∀ {a b c}, S a b → Q b c → S a c) : Commits R S (x >>= f) :=
  bind_relates hx hf absorb id fun hs hq => Or.inr (absorb hs hq)

end Commits

/-! Failed runs. -/

/-- Every run of `x` that fails relates its first state to its last by `R`. -/
def Fails (R : σ → σ → Prop) (x : EStateM ε σ α) : Prop := ∀ s e s', x s = .error e s' → R s s'

theorem Fails.of_keeps {R : σ → σ → Prop} (h : Keeps R x) : Fails R x :=
  fun s => (h s).2

theorem Fails.bind_fails {R : σ → σ → Prop} (trans : ∀ {a b c}, R a b → R b c → R a c)
    (hx : Keeps R x) (hf : ∀ a, Fails R (f a)) : Fails R (x >>= f) := by
  intro s e s' h
  rcases bind_error.mp h with h₁ | ⟨a, s₁, h₁, h₂⟩
  · exact (hx s).2 e s' h₁
  · exact trans ((hx s).1 a s₁ h₁) (hf a s₁ e s' h₂)

/-- A run of `x` that fails has left the state alone. -/
def FailsClean (x : EStateM ε σ α) : Prop := Fails Eq x

namespace FailsClean

theorem of_keeps {x : EStateM ε σ α} (h : Keeps Eq x) : FailsClean x := Fails.of_keeps h

theorem throw_clean (e : ε) : FailsClean (throw e : EStateM ε σ α) :=
  of_keeps (Keeps.throw_keeps (fun _ => rfl) e)

theorem set_clean (a : σ) : FailsClean (set a : EStateM ε σ PUnit) :=
  fun _ _ _ h => (set_error.mp h).elim

theorem modify_clean (f : σ → σ) : FailsClean (modify f : EStateM ε σ PUnit) :=
  fun _ _ _ h => (modify_error.mp h).elim

/-- Reading and checking before the first write keeps failures clean. -/
theorem bind_clean {x : EStateM ε σ α} {f : α → EStateM ε σ β} (hx : Keeps Eq x)
    (hf : ∀ a, FailsClean (f a)) : FailsClean (x >>= f) :=
  Fails.bind_fails (R := Eq) (fun h h' => h.trans h') hx hf

theorem get_clean {f : σ → EStateM ε σ β} (hf : ∀ a, FailsClean (f a)) :
    FailsClean (get >>= f) := bind_clean (Keeps.get_keeps (fun _ => rfl)) hf

theorem refuse_clean [Decidable c] {e : ε} {f : Unit → EStateM ε σ β} (hf : ∀ u, FailsClean (f u)) :
    FailsClean (refuse c e >>= f) :=
  bind_clean (Keeps.refuse_keeps (fun _ => rfl) c e) hf

theorem lift_clean {f : α → EStateM ε σ β} (hf : ∀ a, FailsClean (f a)) :
    FailsClean (lift r >>= f) := bind_clean (Keeps.lift_keeps (fun _ => rfl) r) hf

end FailsClean

end Outcome
