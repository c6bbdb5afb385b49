import Mathlib.Init

/- Histories of a transition system.

   A step leads from a state to the next and shows some events, most often one or
   none. `Path Next H s events t` is a run from `s` to `t` all of whose states meet
   `H`; `Since Next init D H` is the past operator "since": there was a step that
   met `D`, and ever since it `H` has held.

   1. `Path.trans`, `Path.always` — runs compose, and meet `H` throughout.
   2. `Since.now`, `Since.later` — the two ways a step makes or keeps a `Since`. What
      `D` says of the step may be another `Since` of what came before it, so that a
      chain of them is an order of steps.
   3. `ClearSince mark fine` — the same for the events alone: `mark` was shown, and since
      then only events that are `fine`.
   4. `playAll` — executable steps, one after the other; what they play is a run. -/
namespace History

variable {σ ε : Type}

/-- Steps lead from `s` to the last state, show the events, and every state on the
    way, both ends included, meets `H`. -/
inductive Path (Next : σ → List ε → σ → Prop) (H : σ → Prop) (s : σ) : List ε → σ → Prop
  | refl (holds : H s) : Path Next H s [] s
  | step {events : List ε} {t u : σ} {shown : List ε} (path : Path Next H s events t)
      (next : Next t shown u) (holds : H u) : Path Next H s (events ++ shown) u

/-- There was a step that met `D`, and `H` has held since. -/
def Since (Next : σ → List ε → σ → Prop) (init : σ) (D : List ε → σ → List ε → σ → Prop)
    (H : σ → Prop) (events : List ε) (t : σ) : Prop :=
  ∃ before s shown s' later, Path Next (fun _ => True) init before s ∧ Next s shown s' ∧
    D before s shown s' ∧ Path Next H s' later t ∧ events = before ++ shown ++ later

variable {Next : σ → List ε → σ → Prop} {H : σ → Prop} {init s t u : σ} {es fs shown : List ε}
  {D : List ε → σ → List ε → σ → Prop}

theorem Path.first (path : Path Next H s es t) : H s := by
  induction path with
  | refl holds => exact holds
  | step _ _ _ ih => exact ih

theorem Path.trans (path : Path Next H s es t) (path' : Path Next H t fs u) :
    Path Next H s (es ++ fs) u := by
  induction path' with
  | refl => simpa using path
  | step _ next holds ih =>
    rw [← List.append_assoc]
    exact .step ih next holds

/-- What holds at first and is kept by every step between states that meet `H` holds
    at the end. -/
theorem Path.always {Q : List ε → σ → Prop} (path : Path Next H s es t) (first : Q [] s)
    (step : ∀ es t shown u, Path Next H s es t → Q es t → Next t shown u → H u → Q (es ++ shown) u) :
    Q es t := by
  induction path with
  | refl => exact first
  | step path next holds ih => exact step _ _ _ _ path ih next holds

theorem Since.now (path : Path Next (fun _ => True) init es s) (next : Next s shown t)
    (done : D es s shown t) (holds : H t) : Since Next init D H (es ++ shown) t :=
  ⟨es, s, shown, t, [], path, next, done, .refl holds, by simp⟩

theorem Since.later (since : Since Next init D H es t) (next : Next t shown u) (holds : H u) :
    Since Next init D H (es ++ shown) u := by
  obtain ⟨before, s, done, s', later, path, first, hdone, since, rfl⟩ := since
  exact ⟨before, s, done, s', later ++ shown, path, first, hdone, .step since next holds, by simp⟩

/-- `mark` was shown, and every event after it is `fine`. -/
def ClearSince (mark : ε) (fine : ε → Prop) (es : List ε) : Prop :=
  ∃ before after, es = before ++ mark :: after ∧ ∀ e ∈ after, fine e

variable {mark : ε} {fine : ε → Prop}

theorem ClearSince.now {es : List ε} (front : List ε) :
    ClearSince mark fine (es ++ (front ++ [mark])) :=
  ⟨es ++ front, [], by simp, by simp⟩

theorem ClearSince.later {es : List ε} (h : ClearSince mark fine es)
    (hfine : ∀ e ∈ shown, fine e) : ClearSince mark fine (es ++ shown) := by
  obtain ⟨before, after, rfl, hafter⟩ := h
  refine ⟨before, after ++ shown, by simp, fun e he => ?_⟩
  rcases List.mem_append.mp he with he | he
  · exact hafter e he
  · exact hfine e he

theorem ClearSince.append {es : List ε} (h : ClearSince mark fine (es ++ shown)) :
    (ClearSince mark fine es ∧ ∀ e ∈ shown, fine e) ∨ mark ∈ shown := by
  obtain ⟨before, after, heq, hafter⟩ := h
  rcases List.append_eq_append_iff.mp heq with ⟨mid, rfl, hshown⟩ | ⟨mid, rfl, hmid⟩
  · exact .inr (by simp [hshown])
  · cases mid with
    | nil => exact .inr (by simp [← show _ = shown from hmid])
    | cons e mid =>
      obtain ⟨rfl, rfl⟩ := List.cons.inj hmid
      exact .inl ⟨⟨before, mid, rfl, fun e he => hafter e (by simp [he])⟩,
        fun e he => hafter e (by simp [he])⟩

theorem ClearSince.of_mem {es : List ε} (h : mark ∈ shown)
    (hfine : ∀ e ∈ shown, fine e) : ClearSince mark fine (es ++ shown) := by
  obtain ⟨front, back, rfl⟩ := List.append_of_mem h
  exact ⟨es ++ front, back, by simp, fun e he => hfine e (by simp [he])⟩

def playAll {τ : Type} (play : τ → σ → Option (List ε × σ)) : List τ → List ε × σ → List ε × σ
  | [], at_ => at_
  | turn :: turns, at_ =>
    match play turn at_.2 with
    | some (shown, s) => playAll play turns (at_.1 ++ shown, s)
    | none => at_

theorem playAll_path {τ : Type} {play : τ → σ → Option (List ε × σ)} {turns : List τ}
    {at_ : List ε × σ} (sound : ∀ turn s shown t, play turn s = some (shown, t) → Next s shown t)
    (path : Path Next (fun _ => True) init at_.1 at_.2) :
    Path Next (fun _ => True) init (playAll play turns at_).1 (playAll play turns at_).2 := by
  induction turns generalizing at_ with
  | nil => exact path
  | cons turn turns ih =>
    unfold playAll
    split
    · next shown t h => exact ih (.step path (sound turn _ _ _ h) trivial)
    · exact path

end History
