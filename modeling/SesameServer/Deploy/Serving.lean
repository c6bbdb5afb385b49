import SesameServer.Deploy.Course

/- What the recorded revision was seen to do.

   `deployed.json` is written in four places: after a switch, when the release was serving
   already, after a switch that failed, and after a rollback. Each is preceded by a live check,
   and all but the third compare what it reports with the record they write.

   1. `SeenServing` — every record that was written had just been reported by a healthy answer.
   2. `confirmed` — any answers at all, but for one: after the restart that follows a failed
      switch, a healthy answer reports the record that the call had read.
   3. `recorded_was_serving` — under such answers every run is `SeenServing`.
   4. `recovery_unconfirmed` — without it, the recovery records what was not seen. -/
namespace Sesame.Deploy

open Script Relation

/-- Whenever `deployed.json` was written with a current record, the last live check before it was
    healthy and reported that record's version and commit. -/
def SeenServing (log : Log) : Prop :=
  Each (fun before e => ∀ state current, e.call = .writeDeployed state → state.current = some current →
    ∃ live, lastLive before = some live ∧ live.serves current.version current.commit = true) log

/-! The answers of a host. -/

def isComposeUp : Event → Bool
  | ⟨.composeUp, _⟩ => true
  | _ => false

def restarted (call : Log) : Bool := (call.dropWhile (!isSwitch ·)).any isComposeUp

def deployedOf : Event → Option State
  | ⟨.readDeployed, .ok found⟩ => found
  | _ => none

/-- The current record that the call has read. -/
def readCurrent (call : Log) : Option Current := (call.findSome? deployedOf).bind (·.current)

/-- A healthy answer after the restart, of something else than the record that was read. -/
def misreported (call : Log) : Event → Bool
  | ⟨.liveHealth, .ok live⟩ => live.ok && restarted call &&
      (readCurrent call).any fun current => !live.serves current.version current.commit
  | _ => false

/-- Any answers but such a one. -/
def confirmed (t : Trace) (e : Event) : Option Trace :=
  if misreported t.call e then none else some (t.add e)

variable {e : Event} {t : Trace}

theorem restarted_append {call : Log} (h : call.any isSwitch = true) (he : isComposeUp e = true) :
    restarted (call ++ [e]) = true := by
  induction call with
  | nil => cases h
  | cons x rest ih =>
    cases hx : isSwitch x with
    | true => simp [restarted, hx, he]
    | false =>
      have hrest : restarted (rest ++ [e]) = true := ih (by simpa [hx] using h)
      simpa [restarted, List.dropWhile_cons, hx] using hrest

theorem readCurrent_append {call : Log} (h : e.call ≠ .readDeployed) :
    readCurrent (call ++ [e]) = readCurrent call := by
  have hnone : deployedOf e = none := by
    obtain ⟨q, r⟩ := e
    cases q <;> first | exact absurd rfl h | rfl
  simp [readCurrent, List.findSome?_append, hnone]

/-! One call of the script. -/

/-- Whatever way it ends, the log is `SeenServing`. -/
abbrev Upheld {α : Type} (P : Trace → Prop) (p : Io α) (R : α → Trace → Prop) : Prop :=
  Within confirmed (fun t => SeenServing t.all) P p R

structure Read (state : State) (t : Trace) : Prop where
  seen : SeenServing t.all
  current : readCurrent t.call = state.current

theorem confirmed_some {t' : Trace} (h : confirmed t e = some t') :
    misreported t.call e = false ∧ t' = t.add e := by
  obtain ⟨hfine, h⟩ := Option.ite_none_left_eq_some.mp h
  exact ⟨by simpa using hfine, (Option.some.inj h).symm⟩

theorem SeenServing.add (h : SeenServing t.all) (hwrite : ∀ state, e.call ≠ .writeDeployed state) :
    SeenServing (t.add e).all := by
  rw [Trace.all_add]
  exact Each.append h fun state _ hcall => absurd hcall (hwrite state)

theorem Read.add {state : State} (h : Read state t) (haside : e.call.Aside) :
    Read state (t.add e) :=
  ⟨h.seen.add haside.ne_write, by rw [← h.current]; exact readCurrent_append haside.ne_read⟩

theorem confirmed_course (state : State) : Course confirmed (fun t => SeenServing t.all) (Read state)
    (fun t => t.call.any isSwitch = true) Served where
  stop t h := h.seen
  aside hstep haside h := (confirmed_some hstep).2 ▸ h.add haside
  unlinked hstep h := (confirmed_some hstep).2 ▸ h.add (by simp)
  switch hstep := by
    rw [(confirmed_some hstep).2]
    simp [Trace.add, isSwitch]
  after hstep h := by
    rw [(confirmed_some hstep).2, Trace.add, List.any_append, h, Bool.true_or]
  live hstep h := (confirmed_some hstep).2 ▸ served_now h
  still hstep hlive h := (confirmed_some hstep).2 ▸ h.add hlive

theorem ask_writeDeployed {P : Trace → Prop} {state : State} (seen : ∀ t, P t → SeenServing t.all)
    (served : ∀ t current, P t → state.current = some current → Served current.version current.commit t) :
    Upheld P (ask (.writeDeployed state)) fun _ t => SeenServing t.all := by
  have hadd : ∀ t r, P t → SeenServing (t.add ⟨.writeDeployed state, r⟩).all := by
    intro t r hp
    rw [Trace.all_add]
    refine Each.append (seen t hp) fun state' current hcall hcurrent => ?_
    cases hcall
    exact served t current hp hcurrent
  refine Spec.call seen (fun t a t' hp hstep => ?_) fun t e t' hp hstep => ?_
  · cases hstep
    exact hadd t _ hp
  · cases hstep
    exact hadd t _ hp

theorem readDeployedState_upheld :
    Upheld (fun t => SeenServing t.all ∧ t.call = []) readDeployedState Read := by
  have hread : ∀ (t : Trace) r, SeenServing t.all ∧ t.call = [] →
      Read ((deployedOf ⟨.readDeployed, r⟩).getD .empty) (t.add ⟨.readDeployed, r⟩) := by
    rintro t r ⟨hseen, hcall⟩
    refine ⟨hseen.add (by simp), ?_⟩
    cases hfound : deployedOf ⟨.readDeployed, r⟩ <;>
      simp [Trace.add, hcall, readCurrent, hfound, State.empty]
  refine Spec.bind (readRecord_spec (R := fun found => Read (found.getD .empty))
    (Spec.call (fun t h => h.1) ?_ ?_)) fun found => Spec.pure fun t h => h
  · intro t found t' h hstep
    cases hstep
    exact hread t (.ok found) h
  · intro t e t' h hstep
    cases hstep
    exact ⟨fun _ => hread t (.error e) h, fun _ => (hread t (.error e) h).seen⟩

section
variable {paths : Paths} {state : State} {release : Release}

abbrev AfterSwitch (state : State) (t : Trace) : Prop := Read state t ∧ t.call.any isSwitch = true

theorem ask_composeUp :
    Upheld (AfterSwitch state) (ask .composeUp) fun _ t => Read state t ∧ restarted t.call = true := by
  refine Spec.call (fun t h => h.1.seen) (fun t a t' h hstep => ?_) fun t e t' h hstep => ?_
  · rw [(confirmed_some hstep).2]
    exact ⟨h.1.add trivial, restarted_append h.2 rfl⟩
  · exact (confirmed_some hstep).2 ▸ h.1.seen.add (by simp)

/-- A healthy answer after the restart reports the record that was read. -/
theorem ask_liveHealth_restarted :
    Upheld (fun t => Read state t ∧ restarted t.call = true) (ask .liveHealth) fun live t =>
      Read state t ∧ (live.ok = true → ∀ current, state.current = some current →
        Served current.version current.commit t) := by
  refine Spec.call (fun t h => h.1.seen) (fun t live t' h hstep => ?_) fun t e t' h hstep => ?_
  · obtain ⟨hfine, rfl⟩ := confirmed_some hstep
    refine ⟨h.1.add trivial, fun hok current hcurrent => served_now ?_⟩
    simpa [misreported, hok, h.2, h.1.current, hcurrent] using hfine
  · exact (confirmed_some hstep).2 ▸ h.1.seen.add (by simp)

/-- The recovery writes back the record that the call has read. -/
theorem recoverFailedSwitch_upheld (record : Pending) (reason : Text) :
    Upheld (AfterSwitch state) (recoverFailedSwitch paths state release record reason)
      fun _ t => SeenServing t.all := by
  have c := (confirmed_course state).switched
  unfold recoverFailedSwitch
  split
  · exact c.throwNew
  · next previousImages _ =>
    have hrestored : Upheld (AfterSwitch state)
        (do
          let envText ← ask .readEnv
          .ofExcept (rewriteEnvImages envText previousImages) : Io Text)
        fun _ => AfterSwitch state := by
      refine Spec.bind (c.ask trivial) fun envText => ?_
      exact (Spec.ofExcept fun t _ h => h.1.seen).conseq (fun t h => h) fun _ t h => h.1
    refine Spec.bind (hrestored.catchWith fun _ => Spec.fail fun t h => h) fun restoredEnv => ?_
    refine Spec.bind (c.ask trivial) fun _ => Spec.bind ask_composeUp fun up => ?_
    split
    · exact Spec.fail fun t h => h.1.seen
    · refine Spec.bind ask_liveHealth_restarted fun live => ?_
      split
      · exact Spec.fail fun t h => h.1.seen
      · next hok =>
        have hok : live.ok = true := by simpa using hok
        refine Spec.bind (Spec.call (R := fun _ t => Read state t ∧ ∀ current,
          state.current = some current → Served current.version current.commit t)
          (fun _ h => h.1.seen) (fun t _ t' h hstep => ?_) fun t _ t' h hstep => ?_) fun time => ?_
        · rw [(confirmed_some hstep).2]
          exact ⟨h.1.add trivial, fun current hcurrent => (h.2 hok current hcurrent).add (by simp)⟩
        · exact (confirmed_some hstep).2 ▸ h.1.seen.add (by simp)
        refine Spec.bind (ask_writeDeployed (fun t h => h.1.seen) fun t current h hcurrent => ?_) fun _ => ?_
        · simp only [restoredState, Option.map_eq_some_iff] at hcurrent
          obtain ⟨restored, hrestored, rfl⟩ := hcurrent
          exact h.2 restored hrestored
        · exact Spec.bind c.ask_unlinkPending fun _ => Spec.fail fun t h => h

theorem deployRelease_upheld :
    Upheld (fun t => SeenServing t.all ∧ t.call = []) (deployRelease paths release)
      fun _ t => SeenServing t.all := by
  refine Course.deployRelease readDeployedState_upheld confirmed_course (fun state time record _ => ?_)
    fun state => recoverFailedSwitch_upheld
  refine ask_writeDeployed (fun t h => h.1.seen) fun t current h hcurrent => ?_
  cases hcurrent
  exact h.2

theorem rollbackRelease_upheld {target : Option Text} :
    Upheld (fun t => SeenServing t.all ∧ t.call = []) (rollbackRelease target)
      fun _ t => SeenServing t.all := by
  refine Course.rollbackRelease readDeployedState_upheld confirmed_course fun state current entry time => ?_
  refine ask_writeDeployed (fun t h => h.1.seen) fun t written h hwritten => ?_
  cases hwritten
  exact h.2

end

/-! Runs. -/

/-- One call of the script, with any answers but a misreported restart. -/
def Step (paths : Paths) (t t' : Trace) : Prop :=
  ∃ op : Operation, op.Performed confirmed paths t.anew t'

theorem Step.seenServing {paths : Paths} {t' : Trace} (step : Step paths t t')
    (h : SeenServing t.all) : SeenServing t'.all := by
  obtain ⟨op, hop⟩ := step
  have hanew : SeenServing t.anew.all ∧ t.anew.call = [] := ⟨t.all_anew.symm ▸ h, rfl⟩
  cases op with
  | deploy release =>
    obtain ⟨out, runs⟩ := hop
    have := deployRelease_upheld _ _ _ hanew runs
    cases out <;> exact this
  | rollback target =>
    obtain ⟨out, runs⟩ := hop
    have := rollbackRelease_upheld _ _ _ hanew runs
    cases out <;> exact this

/-- **The recorded revision was seen serving.** In every run of `deployRelease` and
    `rollbackRelease` calls, each returned, failed or stopped anywhere, in which a healthy answer
    after the restart that follows a failed switch reports the record that the call had read:
    whenever `deployed.json` was written with a current record, the last live check before it was
    healthy and reported that record's version and commit. -/
theorem recorded_was_serving {paths : Paths} {t : Trace}
    (run : ReflTransGen (Step paths) Trace.empty t) : SeenServing t.all := by
  induction run with
  | refl => exact Each.nil _
  | tail _ step ih => exact step.seenServing ih

/-- `SeenServing`, read off a log; `last` is the last live answer before it. -/
def seenServing : Option Health → Log → Bool
  | _, [] => true
  | last, e :: rest =>
    (match e.call with
      | .writeDeployed state =>
        state.current.all fun current => last.any (·.serves current.version current.commit)
      | _ => true) && seenServing ((liveOf e).or last) rest

theorem SeenServing.check (before : Log) {log : Log} (h : SeenServing (before ++ log)) :
    seenServing (lastLive before) log = true := by
  induction log generalizing before with
  | nil => rfl
  | cons e rest ih =>
    rw [seenServing, ← lastLive_append, ih _ (by simpa using h), Bool.and_true]
    split
    · next state hcall =>
      cases hcurrent : state.current with
      | none => rfl
      | some current =>
        obtain ⟨live, hlast, hserves⟩ := h before e rest rfl state current hcall hcurrent
        simp [hlast, hserves]
    · rfl

namespace Demo

def files : Files := ⟨some (.holds (recorded (release "1.0.0" 'a'))), none, some envText, none⟩

/-- The switch to 1.1.0 fails; after the restart the stack reports `back`. -/
def failedSwitch (back : Release) : Files → Log → (q : Call) → Except Err (Answer q) :=
  reply (release "1.1.0" 'b')
    (fun call => healthy (if restarted call then back else release "1.0.0" 'a')) false

/-- **The recovery does not compare what it sees with what it records.** The switch to 1.1.0
    fails, the restarted stack is healthy but reports 0.9.0, and 1.0.0 is recorded. -/
theorem recovery_unconfirmed :
    ∃ w, ReflTransGen (Operates paths) ⟨files, .empty⟩ w ∧ ¬SeenServing w.trace.all := by
  have hplay : (run next (fun w => failedSwitch (release "0.9.0" 'c') w.files w.trace.call) 100
      (deployRelease paths (release "1.1.0" 'b')) (World.anew ⟨files, .empty⟩)).map
      (fun end_ => seenServing none end_.1.trace.all) = some false := by decide +kernel
  obtain ⟨⟨w, out⟩, hrun, hcheck⟩ := Option.map_eq_some_iff.mp hplay
  refine ⟨w, .single ⟨.deploy (release "1.1.0" 'b'), out, run_runs hrun⟩, fun h => ?_⟩
  have hseen : seenServing none w.trace.all = true := SeenServing.check [] h
  exact Bool.false_ne_true (hcheck.symm.trans hseen)

/-- The same failed switch with 1.0.0 serving again, and one record written. -/
theorem recovery_confirmed : ∃ t, ReflTransGen (Step paths) Trace.empty t ∧ SeenServing t.all ∧
      (t.all.filter fun e => match e.call with
        | .writeDeployed _ => true
        | _ => false).length = 1 := by
  have hplay : (run confirmed (fun t => failedSwitch (release "1.0.0" 'a') files t.call) 100
      (deployRelease paths (release "1.1.0" 'b')) Trace.empty.anew).map
      (fun end_ => (end_.1.all.filter fun e => match e.call with
        | .writeDeployed _ => true
        | _ => false).length) = some 1 := by decide +kernel
  obtain ⟨⟨t, out⟩, hrun, hcount⟩ := Option.map_eq_some_iff.mp hplay
  have hsteps : ReflTransGen (Step paths) Trace.empty t :=
    .single ⟨.deploy (release "1.1.0" 'b'), out, run_runs hrun⟩
  exact ⟨t, hsteps, recorded_was_serving hsteps, hcount⟩

end Demo

end Sesame.Deploy
