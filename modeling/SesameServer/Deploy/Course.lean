import SesameServer.Deploy.Host

/- The script's two calls, on any host and for any condition on what it records.

   1. `Course` — what a call keeps once it has read the record: `B` under every call that does not
      concern `deployed.json`, `A` after a switch, and `S` while the last live check reported a
      version at a commit.
   2. `Course.deployRelease`, `Course.rollbackRelease` — it is enough to look at the places where
      the record is written. -/
namespace Sesame.Deploy

open Script Prog

structure Course {σ : Type} (step : σ → Event → Option σ) (I B A : σ → Prop)
    (S : Option Text → Option Text → σ → Prop) : Prop where
  stop : ∀ s, B s → I s
  aside : ∀ {s e s'}, step s e = some s' → e.call.Aside → B s → B s'
  unlinked : ∀ {s r s'}, step s ⟨.unlinkPending, r⟩ = some s' → I s → I s'
  switch : ∀ {s r s'}, step s ⟨.switchTraffic, r⟩ = some s' → A s'
  after : ∀ {s e s'}, step s e = some s' → A s → A s'
  live : ∀ {s live s' version commit}, step s ⟨.liveHealth, .ok live⟩ = some s' →
    live.serves version commit = true → S version commit s'
  still : ∀ {s e s' version commit}, step s e = some s' → e.call ≠ .liveHealth →
    S version commit s → S version commit s'

namespace Course

section
variable {σ : Type} {step : σ → Event → Option σ} {I B A : σ → Prop}
  {S : Option Text → Option Text → σ → Prop} (c : Course step I B A S)
include c

variable {α : Type} {p : Io α}

theorem stage (calls : p.Calls Call.Aside) : Within step I B p fun _ => B :=
  Spec.of_calls calls (fun _ _ _ haside h hstep => c.aside hstep haside h) c.stop

theorem preparatory (calls : p.Calls Call.Preparatory) :
    Within step I B p fun _ => B := c.stage (calls.mono fun _ => Call.Preparatory.aside)

theorem outside (calls : p.Calls Call.Outside) :
    Within step I B p fun _ => B := c.preparatory (calls.mono fun _ => Call.Outside.preparatory)

variable {q : Call} {version commit : Option Text}

theorem ask (h : q.Aside) : Within step I B (ask q) fun _ => B := c.stage (calls_call h)

theorem ask_seen (h : q.Aside) (hlive : q ≠ .liveHealth) :
    Within step I (fun s => B s ∧ S version commit s) (Deploy.ask q) fun _ s => B s ∧ S version commit s :=
  Spec.call (fun s hs => c.stop s hs.1)
    (fun _ _ _ hs hstep => ⟨c.aside hstep h hs.1, c.still hstep hlive hs.2⟩)
    fun _ _ _ hs hstep => c.stop _ (c.aside hstep h hs.1)

theorem ask_live : Within step I B (Deploy.ask .liveHealth) fun live s => B s ∧
      ∀ version commit, live.serves version commit = true → S version commit s :=
  Spec.call c.stop
    (fun _ _ _ hs hstep => ⟨c.aside hstep trivial hs, fun _ _ => c.live hstep⟩)
    fun _ _ _ hs hstep => c.stop _ (c.aside hstep trivial hs)

theorem ask_unlinkPending : Within step I I (Deploy.ask .unlinkPending) fun _ => I :=
  Spec.call (fun _ h => h) (fun _ _ _ h hstep => c.unlinked hstep h)
    fun _ _ _ h hstep => c.unlinked hstep h

theorem throwNew {parts : List Text} {R : α → σ → Prop} : Within step I B (throwNew parts) R :=
  Spec.fail c.stop

theorem switched : Course step I (fun s => B s ∧ A s) A S :=
  { c with
    stop := fun s h => c.stop s h.1
    aside := fun hstep haside h => ⟨c.aside hstep haside h.1, c.after hstep h.2⟩ }

variable {paths : Paths} {state : State} {release : Release} {record : Pending}

theorem convergePinnedEnv : Within step I
      (fun s => B s ∧ S (some release.version) (some release.commit) s) (convergePinnedEnv release)
      fun _ s => B s ∧ S (some release.version) (some release.commit) s := by
  refine Spec.bind (c.ask_seen trivial (by simp)) fun envText => ?_
  refine Spec.bind (Spec.ofExcept fun s _ h => c.stop s h.1) fun staged => ?_
  split
  · exact Spec.pure fun s h => h.1
  · refine Spec.bind ((c.ask (by trivial)).pre fun s h => h.1.1) fun _ => ?_
    refine Spec.bind (c.ask trivial) fun up => ?_
    split
    · exact c.throwNew
    · refine Spec.bind c.ask_live fun live => ?_
      split
      · exact c.throwNew.pre fun s h => h.1
      · next hserves => exact Spec.pure fun s h => ⟨h.1, h.2 _ _ (by simpa using hserves)⟩

section
variable (complete : ∀ time record, Within step I
    (fun s => B s ∧ S (some release.version) (some release.commit) s)
    (Deploy.ask (.writeDeployed (deployedState state release record time))) fun _ => I)
include complete

theorem completeDeployment : Within step I
      (fun s => B s ∧ S (some release.version) (some release.commit) s)
      (completeDeployment state release record) fun _ => I := by
  refine Spec.bind (c.ask_seen trivial (by simp)) fun time => Spec.bind (complete time record) fun _ => ?_
  exact Spec.bind c.ask_unlinkPending fun _ => Spec.pure fun s h => h

variable (recover : ∀ record reason, Within step I (fun s => B s ∧ A s)
    (recoverFailedSwitch paths state release record reason) fun _ => I)
include recover

theorem switchRelease : Within step I B (switchRelease paths state release record) fun _ => I := by
  refine Spec.bind (c.ask trivial) fun _ => Spec.bind (c.preparatory ensureStaging_calls) fun _ => ?_
  refine Spec.bind (Spec.call (R := fun _ s => B s ∧ A s) c.stop
    (fun _ _ _ h hstep => ⟨c.aside hstep trivial h, c.switch hstep⟩)
    fun _ _ _ h hstep => c.stop _ (c.aside hstep trivial h)) fun switched => ?_
  split
  · exact recover _ _
  · refine Spec.bind c.switched.ask_live fun live => ?_
    split
    · exact (recover _ _).pre fun s h => h.1
    · split
      · exact (recover _ _).pre fun s h => h.1
      · next hok hsame =>
        have hserves : live.serves (some release.version) (some release.commit) = true := by
          simp only [not_or, ne_eq, Decidable.not_not, Bool.not_eq_true] at hok hsame
          simp [Health.serves, hok, hsame]
        refine Spec.bind ((c.ask_seen (by trivial) (by simp)).pre fun s h =>
          ⟨h.1.1, h.2 _ _ hserves⟩) fun _ => ?_
        exact c.completeDeployment complete

theorem promote {pending : Option Pending} :
    Within step I B (promote paths state release pending) fun _ => I := by
  refine Spec.bind (c.ask trivial) fun envText => Spec.bind (c.outside verifyImages_calls) fun _ => ?_
  refine Spec.bind (c.preparatory prepare_calls) fun record => ?_
  refine Spec.bind (c.preparatory backUp_calls) fun record => ?_
  refine Spec.bind (c.preparatory rehearse_calls) fun record => ?_
  refine Spec.bind (c.ask trivial) fun _ => Spec.bind (Spec.ofExcept fun s _ => c.stop s) fun staged => ?_
  refine Spec.bind ((c.ask (by trivial)).pre fun s h => h.1) fun _ => ?_
  refine Spec.bind (c.outside checkCandidate_calls) fun _ => Spec.bind (c.ask trivial) fun _ => ?_
  refine Spec.bind c.ask_live fun liveBefore => ?_
  split
  · next hserves =>
    refine Spec.bind (c.convergePinnedEnv.pre fun s h => ⟨h.1, h.2 _ _ hserves⟩) fun _ => ?_
    exact c.completeDeployment complete
  · exact (c.switchRelease complete recover).pre fun s h => h.1

end

theorem rollbackTo {current : Current} {target : Text} {entry : Entry}
    (write : ∀ time, Within step I (fun s => B s ∧ S (some target) entry.commit s)
      (Deploy.ask (.writeDeployed (rolledBackState state current entry time))) fun _ => I) :
    Within step I B (rollbackTo state current target entry) fun _ => I := by
  refine Spec.bind (Spec.ofExcept fun s _ => c.stop s) fun images => ?_
  refine Spec.bind ((c.outside verifyImages_calls).pre fun s h => h.1) fun _ => ?_
  refine Spec.bind (c.ask trivial) fun envText => ?_
  refine Spec.bind (Spec.ofExcept fun s _ => c.stop s) fun rewritten => ?_
  refine Spec.bind ((c.ask (by trivial)).pre fun s h => h.1) fun _ => Spec.bind (c.ask trivial) fun up => ?_
  split
  · exact c.throwNew
  · refine Spec.bind c.ask_live fun live => ?_
    split
    · exact c.throwNew.pre fun s h => h.1
    · next hserves =>
      refine Spec.bind ((c.ask_seen (by trivial) (by simp)).pre fun s h =>
        ⟨h.1, h.2 (some target) entry.commit (by simpa using hserves)⟩) fun time => ?_
      exact Spec.bind (write time) fun _ => Spec.pure fun s h => h

end

/-! The calls. -/

section
variable {σ : Type} {step : σ → Event → Option σ} {I P A : σ → Prop} {B : State → σ → Prop}
  {S : Option Text → Option Text → σ → Prop}
  (read : Within step I P readDeployedState B) (c : ∀ state, Course step I (B state) A S)
include read c

theorem deployRelease {paths : Paths} {release : Release}
    (complete : ∀ state time record, classifyDeployment state release = .ok .bootstrap ∨
      classifyDeployment state release = .ok .deploy → Within step I
        (fun s => B state s ∧ S (some release.version) (some release.commit) s)
        (Deploy.ask (.writeDeployed (deployedState state release record time))) fun _ => I)
    (recover : ∀ state record reason, Within step I (fun s => B state s ∧ A s)
      (recoverFailedSwitch paths state release record reason) fun _ => I) :
    Within step I P (deployRelease paths release) fun _ => I := by
  refine Spec.bind read fun state => ?_
  have c := c state
  refine Spec.bind (c.preparatory readPending_calls) fun pending => ?_
  refine Spec.bind (Spec.ofExcept fun s _ => c.stop s) fun _ => ?_
  refine Spec.bind (Spec.ofExcept fun s _ h => c.stop s h.1) fun action => ?_
  refine Spec.assume (fun s h => h.2) fun hclass => Spec.pre (P := B state) ?_ fun s h => h.1.1
  cases action with
  | noop =>
    cases pending with
    | some record => exact Spec.bind (c.ask_unlinkPending.pre c.stop) fun _ => Spec.pure fun s h => h
    | none =>
      refine Spec.bind (c.outside verifyImages_calls) fun _ => ?_
      exact Spec.bind (c.stage convergePinnedEnv_calls) fun _ => c.throwNew
  | stale | conflict => exact c.throwNew
  | bootstrap => exact c.promote (fun time record => complete state time record (.inl hclass)) (recover state)
  | deploy => exact c.promote (fun time record => complete state time record (.inr hclass)) (recover state)

theorem rollbackRelease {target : Option Text}
    (write : ∀ state current entry time, Within step I (fun s => B state s ∧ S entry.version entry.commit s)
      (Deploy.ask (.writeDeployed (rolledBackState state current entry time))) fun _ => I) :
    Within step I P (rollbackRelease target) fun _ => I := by
  refine Spec.bind read fun state => ?_
  have c := c state
  split
  · exact c.throwNew
  · split
    · exact c.throwNew
    · exact c.throwNew
    · split
      · exact c.throwNew
      · split
        · exact c.throwNew
        · next entry hfound =>
          have hentry := List.find?_some hfound
          simp only [decide_eq_true_eq] at hentry
          exact c.rollbackTo fun time => hentry.1 ▸ write state _ entry time

end

end Course

end Sesame.Deploy
