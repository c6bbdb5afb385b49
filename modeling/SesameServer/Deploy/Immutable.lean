import SesameServer.Deploy.Course

/- Which manifests a version was deployed from.

   A deployment is classified against the current record alone. A rollback moves that record
   below a version that was deployed, and the version can then be deployed from another manifest.

   1. `Immutable` — the deploy and bootstrap entries of one version carry one set digest.
   2. `Sound`, `SoundFile` — the invariant, of a state and of the file.
   3. `deployed_once` — in a run in which no call deploys, above the current record, a version
      that the history already has from another manifest, the history is `Immutable`.
   4. `Demo.deployed_twice` — a rollback, and the same version from another manifest. -/
namespace Sesame.Deploy

open Script Relation

def Entry.Deploys (entry : Entry) : Prop := entry.action = .deploy ∨ entry.action = .bootstrap

instance (entry : Entry) : Decidable entry.Deploys := inferInstanceAs (Decidable (_ ∨ _))

/-- Entries of one version that deployments made carry the same set digest. -/
def Immutable (history : List Entry) : Prop :=
  ∀ a ∈ history, ∀ b ∈ history, a.Deploys → b.Deploys → a.version = b.version →
    a.setDigest = b.setDigest

instance (history : List Entry) : Decidable (Immutable history) :=
  inferInstanceAs (Decidable (∀ a ∈ history, ∀ b ∈ history, _ → _ → _ → _))

/-- No current record means that nothing was deployed. -/
structure Sound (state : State) : Prop where
  immutable : Immutable state.history
  founded : state.current = none → ∀ a ∈ state.history, ¬a.Deploys

theorem Sound.empty : Sound .empty := ⟨by simp [Immutable, State.empty], by simp [State.empty]⟩

/-- Nothing that a deployment recorded contradicts the release. -/
def Agrees (history : List Entry) (release : Release) : Prop :=
  ∀ a ∈ history, a.Deploys → a.version = some release.version → a.setDigest = some release.setDigest

theorem Immutable.append_other {history : List Entry} {entry : Entry} (h : Immutable history)
    (hother : ¬entry.Deploys) : Immutable (history ++ [entry]) := by
  intro a ha b hb hda hdb
  have hmem : ∀ c ∈ history ++ [entry], c.Deploys → c ∈ history := by
    intro c hc hdc
    rcases List.mem_append.mp hc with hc | hc
    · exact hc
    · obtain rfl := List.mem_singleton.mp hc
      exact absurd hdc hother
  exact h a (hmem a ha hda) b (hmem b hb hdb) hda hdb

theorem Immutable.append_agreed {history : List Entry} {entry : Entry} {release : Release}
    (h : Immutable history) (hagrees : Agrees history release)
    (hversion : entry.version = some release.version)
    (hdigest : entry.setDigest = some release.setDigest) : Immutable (history ++ [entry]) := by
  intro a ha b hb hda hdb heq
  rcases List.mem_append.mp ha with hold | hnew <;> rcases List.mem_append.mp hb with hold' | hnew'
  · exact h a hold b hold' hda hdb heq
  · obtain rfl := List.mem_singleton.mp hnew'
    rw [hdigest, hagrees a hold hda (heq.trans hversion)]
  · obtain rfl := List.mem_singleton.mp hnew
    rw [hdigest, hagrees b hold' hdb (heq.symm.trans hversion)]
  · rw [List.mem_singleton.mp hnew, List.mem_singleton.mp hnew']

/-! What is written. -/

section
variable {state : State} {release : Release}

theorem Sound.deployed (h : Sound state) (hagrees : Agrees state.history release) (record : Pending)
    (time : Text) : Sound (deployedState state release record time) := by
  refine ⟨h.immutable.append_agreed hagrees rfl rfl, ?_⟩
  intro hnone
  cases hnone

theorem Sound.restored (h : Sound state) (time : Text) : Sound (restoredState state release time) := by
  have hother : ∀ entry : Entry, entry.action = .rollback → ¬entry.Deploys := by
    intro entry haction
    simp [Entry.Deploys, haction]
  refine ⟨h.immutable.append_other (hother _ ?_), fun hnone a ha => ?_⟩
  · cases state.current <;> rfl
  · rcases List.mem_append.mp ha with ha | ha
    · exact h.founded (by simpa [restoredState] using hnone) a ha
    · obtain rfl := List.mem_singleton.mp ha
      exact hother _ (by cases state.current <;> rfl)

theorem Sound.rolledBack (h : Sound state) (current : Current) (entry : Entry) (time : Text) :
    Sound (rolledBackState state current entry time) := by
  refine ⟨h.immutable.append_other (by simp [Entry.Deploys]), ?_⟩
  intro hnone
  cases hnone

end

/-! One call. -/

def SoundFile (w : World) : Prop :=
  w.files.deployed = none ∨ ∃ state, w.files.deployed = some (.holds state) ∧ Sound state

theorem SoundFile.state {w : World} (h : SoundFile w) {state : State} (hstate : w.files.state = some state) :
    Sound state := by
  rcases h with hnone | ⟨found, hfound, hsound⟩
  · simp only [Files.state, hnone, Doc.read, Option.map_some, Option.getD_none, Option.some.injEq] at hstate
    exact hstate ▸ Sound.empty
  · simp only [Files.state, hfound, Doc.read, Option.map_some, Option.getD_some, Option.some.injEq] at hstate
    exact hstate ▸ hsound

theorem SoundFile.next {w w' : World} {e : Event} (h : SoundFile w) (hstep : next w e = some w')
    (hsafe : ∀ written, e.call = .writeDeployed written → Sound written) : SoundFile w' := by
  rcases Files.after_deployed (next_eq_some hstep).1 with hkept | ⟨written, hcall, hwritten⟩
  · rw [SoundFile, hkept]
    exact h
  · exact .inr ⟨written, hwritten, hsafe written hcall⟩

theorem ask_writeDeployed_sound {P : World → Prop} {written : State} (file : ∀ w, P w → SoundFile w)
    (h : ∀ w, P w → Sound written) :
    Within next SoundFile P (ask (.writeDeployed written)) fun _ => SoundFile := by
  have hnext : ∀ w r w', P w → next w ⟨.writeDeployed written, r⟩ = some w' → SoundFile w' := by
    intro w r w' hw hstep
    refine (file w hw).next hstep fun _ hcall => ?_
    cases hcall
    exact h w hw
  exact Spec.call file (fun w _ => hnext w _) fun w _ => hnext w _

/-- The version is above the current record, and a deployment of it from another manifest is on
    record. -/
def Redeploys (state : State) (release : Release) : Prop :=
  (∃ current, state.current = some current ∧
    compareVersions release.version (shown current.version) = .ok .gt) ∧
  ∃ entry ∈ state.history, entry.Deploys ∧ entry.version = some release.version ∧
    entry.setDigest ≠ some release.setDigest

instance (state : State) (release : Release) : Decidable (Redeploys state release) :=
  have : Decidable (∃ current, state.current = some current ∧
      compareVersions release.version (shown current.version) = .ok .gt) :=
    match h : state.current with
    | none => .isFalse fun ⟨_, hcurrent, _⟩ => by cases hcurrent
    | some current =>
      match horder : compareVersions release.version (shown current.version) with
      | .ok .gt => .isTrue ⟨current, rfl, horder⟩
      | .ok .lt => .isFalse fun ⟨_, hcurrent, hgt⟩ => by cases hcurrent; rw [horder] at hgt; cases hgt
      | .ok .eq => .isFalse fun ⟨_, hcurrent, hgt⟩ => by cases hcurrent; rw [horder] at hgt; cases hgt
      | .error _ => .isFalse fun ⟨_, hcurrent, hgt⟩ => by cases hcurrent; rw [horder] at hgt; cases hgt
  inferInstanceAs (Decidable (_ ∧ _))

theorem classifyDeployment_deploy {state : State} {release : Release}
    (h : classifyDeployment state release = .ok .deploy) : ∃ current, state.current = some current ∧
      compareVersions release.version (shown current.version) = .ok .gt := by
  unfold classifyDeployment at h
  split at h
  · cases h
  · next current hcurrent =>
    refine ⟨current, hcurrent, ?_⟩
    obtain ⟨order, horder, h⟩ := Outcome.except_bind_ok.mp h
    cases order with
    | lt => cases h
    | eq =>
      dsimp only at h
      split at h <;> cases h
    | gt => exact horder

theorem classifyDeployment_bootstrap {state : State} {release : Release}
    (h : classifyDeployment state release = .ok .bootstrap) : state.current = none := by
  unfold classifyDeployment at h
  split at h
  · assumption
  · obtain ⟨order, horder, h⟩ := Outcome.except_bind_ok.mp h
    cases order with
    | lt => cases h
    | eq =>
      dsimp only at h
      split at h <;> cases h
    | gt => cases h

/-- A deployment that is carried out agrees with the history, unless it is one of those. -/
theorem Sound.agrees {state : State} {release : Release} (h : Sound state)
    (hnew : ¬Redeploys state release) (hclass : classifyDeployment state release = .ok .bootstrap ∨
      classifyDeployment state release = .ok .deploy) : Agrees state.history release := by
  intro entry hentry hdeploys hversion
  rcases hclass with hbootstrap | hdeploy
  · exact absurd hdeploys (h.founded (classifyDeployment_bootstrap hbootstrap) entry hentry)
  · by_contra hother
    exact hnew ⟨classifyDeployment_deploy hdeploy, entry, hentry, hdeploys, hversion, hother⟩

structure ReadSound (φ : State → Prop) (state : State) (w : World) : Prop where
  file : SoundFile w
  sound : Sound state
  read : φ state

theorem sound_course (φ : State → Prop) (state : State) :
    Course next SoundFile (ReadSound φ state) (fun _ => True) fun _ _ _ => True where
  stop _ h := h.file
  aside hstep haside h :=
    ⟨h.file.next hstep fun _ hcall => absurd hcall (haside.ne_write _), h.sound, h.read⟩
  unlinked hstep h := h.next hstep fun _ hcall => by cases hcall
  switch _ := trivial
  after _ _ := trivial
  live _ _ := trivial
  still _ _ _ := trivial

theorem readDeployedState_sound {φ : State → Prop} :
    Within next SoundFile (fun w => SoundFile w ∧ ∀ state, w.files.state = some state → φ state)
      readDeployedState (ReadSound φ) := by
  refine (readDeployedState_host World.files (fun _ _ _ h => (next_eq_some h).1) (fun w h => h.1) ?_).conseq
    (fun w h => h) fun state w h => ⟨h.1.1, h.1.1.state h.2, h.1.2 state h.2⟩
  intro w e w' hcall h hstep
  rw [SoundFile, Files.after_quiet (by simp [hcall, Call.Quiet]) (next_eq_some hstep).1]
  exact h

theorem recoverFailedSwitch_sound {paths : Paths} {φ : State → Prop} {release : Release} (state : State)
    (record : Pending) (reason : Text) : Within next SoundFile (fun w => ReadSound φ state w ∧ True)
      (recoverFailedSwitch paths state release record reason) fun _ => SoundFile := by
  have c := (sound_course φ state).switched
  unfold recoverFailedSwitch
  split
  · exact c.throwNew
  · refine Spec.bind (c.stage (Prog.calls_catchWith ?_ fun _ => trivial)) fun restoredEnv => ?_
    · exact Prog.calls_bind (Prog.calls_call trivial) fun _ => Prog.calls_ofExcept _
    · refine Spec.bind (c.ask trivial) fun _ => Spec.bind (c.ask trivial) fun up => ?_
      split
      · exact c.throwNew
      · refine Spec.bind (c.ask trivial) fun live => ?_
        split
        · exact c.throwNew
        · refine Spec.bind (c.ask trivial) fun time => ?_
          refine Spec.bind (ask_writeDeployed_sound c.stop fun w h => h.1.sound.restored time) fun _ => ?_
          exact Spec.bind c.ask_unlinkPending fun _ => Spec.fail fun w h => h

theorem deployRelease_sound {paths : Paths} {release : Release} : Within next SoundFile
      (fun w => SoundFile w ∧ ∀ state, w.files.state = some state → ¬Redeploys state release)
      (deployRelease paths release) fun _ => SoundFile :=
  Course.deployRelease readDeployedState_sound (sound_course _) (fun _ time record hclass =>
    ask_writeDeployed_sound (fun _ h => h.1.file) fun _ h =>
      h.1.sound.deployed (h.1.sound.agrees h.1.read hclass) record time) recoverFailedSwitch_sound

theorem rollbackRelease_sound {target : Option Text} :
    Within next SoundFile SoundFile (rollbackRelease target) fun _ => SoundFile :=
  Course.rollbackRelease ((readDeployedState_sound (φ := fun _ => True)).pre fun _ h =>
    ⟨h, fun _ _ => trivial⟩) (sound_course _) fun _ current entry time =>
      ask_writeDeployed_sound (fun _ h => h.1.file) fun _ h => h.1.sound.rolledBack current entry time

/-! Runs. -/

/-- One call, that deploys no version which the history has from another manifest while the
    current record is below it. -/
def FreshStep (paths : Paths) (w w' : World) : Prop :=
  ∃ op : Operation, op.Performed next paths w.anew w' ∧
    ∀ release, op = .deploy release → ∀ state, w.files.state = some state → ¬Redeploys state release

theorem FreshStep.sound {paths : Paths} {w w' : World} (step : FreshStep paths w w')
    (h : SoundFile w) : SoundFile w' := by
  obtain ⟨op, hop, hnew⟩ := step
  cases op with
  | deploy release =>
    obtain ⟨out, runs⟩ := hop
    have := deployRelease_sound w.anew w' out ⟨h, hnew release rfl⟩ runs
    cases out <;> exact this
  | rollback target =>
    obtain ⟨out, runs⟩ := hop
    have := rollbackRelease_sound w.anew w' out h runs
    cases out <;> exact this

theorem run_sound {paths : Paths} {w w' : World} (run : ReflTransGen (FreshStep paths) w w')
    (h : SoundFile w) : SoundFile w' := by
  induction run with
  | refl => exact h
  | tail _ step ih => exact step.sound ih

/-- **A version is deployed from one manifest.** In every run of `deployRelease` and
    `rollbackRelease` calls from an empty state, each returned, failed or stopped anywhere, in
    which no call deploys a version above the current record that the history has from another
    manifest: all deploy and bootstrap entries of one version carry one set digest. -/
theorem deployed_once {paths : Paths} {files : Files} (hempty : files.deployed = none) {w : World}
    (run : ReflTransGen (FreshStep paths) ⟨files, .empty⟩ w) {state : State}
    (hstate : w.files.deployed = some (.holds state)) : Immutable state.history := by
  rcases run_sound run (.inl hempty) with hnone | ⟨found, hfound, hsound⟩
  · rw [hnone] at hstate
    cases hstate
  · rw [hfound] at hstate
    cases hstate
    exact hsound.immutable

namespace Demo

def fresh : World := ⟨⟨none, none, some envText, none⟩, .empty⟩

/-- What is checked of the state that is recorded in the end. -/
def recordedWith (check : State → Bool) (w : World) : Bool :=
  match w.files.deployed with
  | some (.holds state) => check state
  | _ => false

theorem recordedWith_state {check : State → Bool} {w : World} (h : recordedWith check w = true) :
    ∃ state, w.files.deployed = some (.holds state) ∧ check state = true := by
  unfold recordedWith at h
  split at h
  · next state hstate => exact ⟨state, hstate, h⟩
  · cases h

/-- Four calls one after the other, and a check of what is recorded then. -/
theorem four_calls {a b c d : World → Option World} {check : State → Bool}
    (h : ((((a fresh).bind b).bind c).bind d).map (recordedWith check) = some true) :
    ∃ w₁ w₂ w₃ w state, a fresh = some w₁ ∧ b w₁ = some w₂ ∧ c w₂ = some w₃ ∧ d w₃ = some w ∧
      w.files.deployed = some (.holds state) ∧ check state = true := by
  obtain ⟨w, hw, hcheck⟩ := Option.map_eq_some_iff.mp h
  obtain ⟨w₃, hw₃, h₄⟩ := Option.bind_eq_some_iff.mp hw
  obtain ⟨w₂, hw₂, h₃⟩ := Option.bind_eq_some_iff.mp hw₃
  obtain ⟨w₁, h₁, h₂⟩ := Option.bind_eq_some_iff.mp hw₂
  obtain ⟨state, hstate, hcheck⟩ := recordedWith_state hcheck
  exact ⟨w₁, w₂, w₃, w, state, h₁, h₂, h₃, h₄, hstate, hcheck⟩

/-- **After a rollback a version is deployed again from another manifest.** 1.0.0, then 1.1.0,
    back to 1.0.0, and 1.1.0 with other images. -/
theorem deployed_twice :
    ∃ w state, ReflTransGen (Operates paths) fresh w ∧ w.files.deployed = some (.holds state) ∧
      ¬Immutable state.history := by
  have hplay : ((((deploys (release "1.0.0" 'a') fresh).bind (deploys (release "1.1.0" 'b'))).bind
      (rollsBack (release "1.0.0" 'a'))).bind (deploys (release "1.1.0" 'c'))).map
      (recordedWith fun state => !decide (Immutable state.history)) = some true := by
    decide +kernel
  obtain ⟨_, _, _, w, state, h₁, h₂, h₃, h₄, hstate, hmutable⟩ := four_calls hplay
  refine ⟨w, state, ?_, hstate, by simpa using hmutable⟩
  exact .tail (.tail (.tail (.single ⟨_, deploys_performed h₁⟩) ⟨_, deploys_performed h₂⟩)
    ⟨_, rollsBack_performed h₃⟩) ⟨_, deploys_performed h₄⟩

/-- A deployment that meets the condition of `FreshStep`. -/
def deploysFresh (release : Release) (w : World) : Option World :=
  if w.files.state.all fun state => !decide (Redeploys state release) then deploys release w else none

theorem deploysFresh_step {release : Release} {w w' : World} (h : deploysFresh release w = some w') :
    FreshStep paths w w' := by
  obtain ⟨hfresh, h⟩ := Option.ite_none_right_eq_some.mp h
  refine ⟨.deploy release, deploys_performed h, ?_⟩
  rintro _ ⟨⟩ state hstate
  simpa [hstate] using hfresh

theorem rollsBack_step {release : Release} {w w' : World} (h : rollsBack release w = some w') :
    FreshStep paths w w' :=
  ⟨_, rollsBack_performed h, fun _ hop => by cases hop⟩

/-- The same with the manifest that 1.1.0 was deployed from before. -/
theorem deployed_again :
    ∃ w state, ReflTransGen (FreshStep paths) fresh w ∧ w.files.deployed = some (.holds state) ∧
      state.history.length = 4 ∧ Immutable state.history := by
  have hplay : ((((deploysFresh (release "1.0.0" 'a') fresh).bind (deploysFresh (release "1.1.0" 'b'))).bind
      (rollsBack (release "1.0.0" 'a'))).bind (deploysFresh (release "1.1.0" 'b'))).map
      (recordedWith fun state => state.history.length == 4) = some true := by
    decide +kernel
  obtain ⟨_, _, _, w, state, h₁, h₂, h₃, h₄, hstate, hlength⟩ := four_calls hplay
  have hrun : ReflTransGen (FreshStep paths) fresh w :=
    .tail (.tail (.tail (.single (deploysFresh_step h₁)) (deploysFresh_step h₂)) (rollsBack_step h₃))
      (deploysFresh_step h₄)
  exact ⟨w, state, hrun, hstate, by simpa using hlength, deployed_once rfl hrun hstate⟩

end Demo

end Sesame.Deploy
