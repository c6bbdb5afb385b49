import SesameServer.Deploy.Host

/- Deployments that are interrupted.

   An attempt may stop before any of its calls, and it may fail; the next attempt finds the files
   as they were left. What is ruled out is a switch that fails and a check after a switch that
   does (`calm`).

   1. `Underway` — nothing is recorded yet. The env file is the old one or the pinned one, a
      pending record that names a backup has one, and no restart came before a backup.
   2. `Recorded` — the release is the current record, and was seen serving.
   3. `underway_attempt`, `recorded_attempt` — every attempt goes from one of the two to one of the
      two, and an attempt that returns leaves `Recorded` without a pending record.
   4. `deployment_converges`. -/
namespace Sesame.Deploy

open Script Relation

/-! The answers. -/

/-- A failed switch, or a failed check after a switch. -/
def disturbed (release : Release) (call : Log) : Event → Bool
  | ⟨.switchTraffic, .ok report⟩ => !report.ok
  | ⟨.liveHealth, .ok live⟩ =>
    call.any isSwitch && !live.serves (some release.version) (some release.commit)
  | _ => false

/-- The host, without such answers. -/
def calm (release : Release) (w : World) (e : Event) : Option World :=
  if disturbed release w.trace.call e then none else next w e

def Attempt (paths : Paths) (release : Release) (w w' : World) (out : Outcome Err Deployed) : Prop :=
  Runs (calm release) w.anew (deployRelease paths release) w' out

/-! Backups and restarts. -/

def Call.restarts : Call → Bool
  | .switchTraffic | .composeUp => true
  | _ => false

def finishedBackup : Event → Bool
  | ⟨.takeBackup _ _, .ok _⟩ => true
  | _ => false

def BackedUp (log : Log) : Prop := ∃ e ∈ log, finishedBackup e = true

/-- A backup was finished before every restart. -/
def Guarded (log : Log) : Prop := Each (fun before e => e.call.restarts = true → BackedUp before) log

theorem BackedUp.append {log : Log} (h : BackedUp log) (e : Event) : BackedUp (log ++ [e]) := by
  obtain ⟨x, hx, hbackup⟩ := h
  exact ⟨x, List.mem_append_left _ hx, hbackup⟩

/-! Where a deployment stands. -/

section
variable (start : Files) (release : Release)

/-- The env file that the deployment pins. -/
def Pins (pinned : Text) : Prop :=
  ∃ old, start.env = some old ∧ rewriteEnvImages old release.rawImages = .ok pinned

/-- The release is newer than the record that the deployment started from. -/
def Promotes : Prop :=
  ∃ state, start.state = some state ∧ (classifyDeployment state release = .ok .bootstrap ∨
    classifyDeployment state release = .ok .deploy)

structure Underway (w : World) : Prop where
  deployed : w.files.deployed = start.deployed
  env : w.files.env = start.env ∨ ∃ pinned, Pins start release pinned ∧ w.files.env = some pinned
  pending : ∀ record, Doc.read w.files.pending = some (some record) →
    Promotes start release ∧ (record.backup.isSome = true → BackedUp w.trace.all)
  guarded : Promotes start release → Guarded w.trace.all

structure Recorded (w : World) : Prop where
  state : ∃ state record time, start.state = some state ∧
    w.files.deployed = some (.holds (deployedState state release record time))
  env : ∃ pinned, Pins start release pinned ∧ w.files.env = some pinned
  served : Served (some release.version) (some release.commit) w.trace
  backed : BackedUp w.trace.all
  guarded : Guarded w.trace.all

/-- What every stop and every failure leaves. -/
def Stands (w : World) : Prop := Underway start release w ∨ Recorded start release w

end

section
variable {start : Files} {release : Release}

variable {w : World}

theorem Underway.add (h : Underway start release w) {e : Event}
    (hrestart : e.call.restarts = true → Promotes start release → BackedUp w.trace.all) :
    Underway start release ⟨w.files, w.trace.add e⟩ := by
  refine ⟨h.deployed, h.env, fun record hrecord => ?_, fun hpromotes => ?_⟩
  · refine ⟨(h.pending record hrecord).1, fun hbackup => ?_⟩
    rw [Trace.all_add]
    exact ((h.pending record hrecord).2 hbackup).append e
  · show Guarded (w.trace.add e).all
    rw [Trace.all_add]
    exact Each.append (h.guarded hpromotes) fun he => hrestart he hpromotes

theorem Underway.setPending (h : Underway start release w) {record : Pending}
    (hpromotes : Promotes start release) (hbackup : record.backup.isSome = true → BackedUp w.trace.all) :
    Underway start release ⟨{ w.files with pending := some (.holds record) }, w.trace⟩ := by
  refine ⟨h.deployed, h.env, fun record' hrecord => ?_, h.guarded⟩
  cases hrecord
  exact ⟨hpromotes, hbackup⟩

theorem Underway.setEnv (h : Underway start release w) {pinned : Text}
    (hpins : Pins start release pinned) {staging : Option Text} :
    Underway start release ⟨{ w.files with env := some pinned, staging := staging }, w.trace⟩ :=
  ⟨h.deployed, .inr ⟨pinned, hpins, rfl⟩, h.pending, h.guarded⟩

theorem Underway.setStaging (h : Underway start release w) {staging : Option Text} :
    Underway start release ⟨{ w.files with staging := staging }, w.trace⟩ :=
  ⟨h.deployed, h.env, h.pending, h.guarded⟩

theorem calm_some {w' : World} {e : Event} (h : calm release w e = some w') :
    disturbed release w.trace.call e = false ∧ w.files.after e = some w'.files ∧
      w' = ⟨w'.files, w.trace.add e⟩ := by
  obtain ⟨hfine, h⟩ := Option.ite_none_left_eq_some.mp h
  obtain ⟨hfiles, htrace⟩ := next_eq_some h
  exact ⟨by simpa using hfine, hfiles, by rw [← htrace]⟩

/-- Whatever way it ends, the deployment stands. -/
abbrev Holding (start : Files) (release : Release) {α : Type} (P : World → Prop) (p : Io α)
    (R : α → World → Prop) : Prop := Within (calm release) (Stands start release) P p R

/-! Calls. -/

variable {P : World → Prop} {q : Call} {R : Answer q → World → Prop}

theorem ask_under (under : ∀ w, P w → Underway start release w)
    (guard : ∀ w, P w → q.restarts = true → Promotes start release → BackedUp w.trace.all)
    (ok : ∀ w a files, P w → disturbed release w.trace.call ⟨q, .ok a⟩ = false →
      w.files.after ⟨q, .ok a⟩ = some files → R a ⟨files, w.trace.add ⟨q, .ok a⟩⟩) :
    Holding start release P (ask q) R := by
  refine Spec.call (fun w h => .inl (under w h)) (fun w a w' h hstep => ?_) fun w e w' h hstep => ?_
  · obtain ⟨hfine, hafter, hw⟩ := calm_some hstep
    exact hw ▸ ok w a w'.files h hfine hafter
  · obtain ⟨-, hafter, hw⟩ := calm_some hstep
    rw [Files.after_error hafter] at hw
    exact .inl (hw ▸ (under w h).add (guard w h))

theorem ask_quiet (hquiet : q.Quiet) (under : ∀ w, P w → Underway start release w)
    (guard : ∀ w, P w → q.restarts = true → Promotes start release → BackedUp w.trace.all)
    (ok : ∀ w a, P w → disturbed release w.trace.call ⟨q, .ok a⟩ = false →
      w.files.after ⟨q, .ok a⟩ = some w.files → R a ⟨w.files, w.trace.add ⟨q, .ok a⟩⟩) :
    Holding start release P (ask q) R := by
  refine ask_under under guard fun w a files h hfine hafter => ?_
  obtain rfl := Files.after_quiet hquiet hafter
  exact ok w a h hfine hafter

theorem ask_plain (hquiet : q.Quiet) (hrestart : q.restarts = false)
    (under : ∀ w, P w → Underway start release w)
    (ok : ∀ w a, P w → disturbed release w.trace.call ⟨q, .ok a⟩ = false →
      w.files.after ⟨q, .ok a⟩ = some w.files → R a ⟨w.files, w.trace.add ⟨q, .ok a⟩⟩) :
    Holding start release P (ask q) R :=
  ask_quiet hquiet under (fun _ _ hr => absurd hr (by simp [hrestart])) ok

theorem ask_write (update : Files → Files)
    (hok : ∀ (files : Files) a, files.after ⟨q, .ok a⟩ = some (update files)) (hrestart : q.restarts = false)
    (under : ∀ w, P w → Underway start release w)
    (ok : ∀ w a, P w → R a ⟨update w.files, w.trace.add ⟨q, .ok a⟩⟩) :
    Holding start release P (ask q) R := by
  refine ask_under under (fun _ _ hr => absurd hr (by simp [hrestart])) fun w a files h _ hafter => ?_
  rw [hok] at hafter
  cases hafter
  exact ok w a h

end

/-! The stages. -/

structure Working (start : Files) (release : Release) (envText : Text) (w : World) : Prop where
  underway : Underway start release w
  env : w.files.env = some envText

structure Secured (start : Files) (release : Release) (envText : Text) (w : World) : Prop
    extends Working start release envText w where
  backed : BackedUp w.trace.all

structure Staged (start : Files) (release : Release) (envText staged : Text) (w : World) : Prop
    extends Secured start release envText w where
  staging : w.files.staging = some staged

/-- The release is what the env file pins, and what the last live check reported. -/
structure Live (start : Files) (release : Release) (w : World) : Prop where
  secured : ∃ pinned, Pins start release pinned ∧ Secured start release pinned w
  served : Served (some release.version) (some release.commit) w.trace

section
variable {start : Files} {release : Release} {envText staged : Text} {w : World} {e : Event}

theorem Working.add (h : Working start release envText w) (he : e.call.restarts = false) :
    Working start release envText ⟨w.files, w.trace.add e⟩ :=
  ⟨h.underway.add fun hr => absurd hr (by simp [he]), h.env⟩

theorem Secured.add (h : Secured start release envText w) :
    Secured start release envText ⟨w.files, w.trace.add e⟩ :=
  ⟨⟨h.underway.add fun _ _ => h.backed, h.env⟩, by rw [Trace.all_add]; exact h.backed.append e⟩

variable {record : Pending} {P : World → Prop} {w' : World} {paths : Paths}

theorem Secured.setPending (h : Secured start release envText w)
    (hpromotes : Promotes start release) :
    Secured start release envText ⟨{ w.files with pending := some (.holds record) }, w.trace⟩ :=
  ⟨⟨h.underway.setPending hpromotes fun _ => h.backed, h.env⟩, h.backed⟩

theorem Staged.add (h : Staged start release envText staged w) :
    Staged start release envText staged ⟨w.files, w.trace.add e⟩ := ⟨h.toSecured.add, h.staging⟩

theorem Staged.setPending (h : Staged start release envText staged w)
    (hpromotes : Promotes start release) :
    Staged start release envText staged ⟨{ w.files with pending := some (.holds record) }, w.trace⟩ :=
  ⟨h.toSecured.setPending hpromotes, h.staging⟩

theorem Live.add (h : Live start release w) (he : e.call ≠ .liveHealth) :
    Live start release ⟨w.files, w.trace.add e⟩ := by
  obtain ⟨⟨pinned, hpins, hsecured⟩, hserved⟩ := h
  exact ⟨⟨pinned, hpins, hsecured.add⟩, hserved.add he⟩

theorem Live.setPending (h : Live start release w) (hpromotes : Promotes start release) :
    Live start release ⟨{ w.files with pending := some (.holds record) }, w.trace⟩ := by
  obtain ⟨⟨pinned, hpins, hsecured⟩, hserved⟩ := h
  exact ⟨⟨pinned, hpins, hsecured.setPending hpromotes⟩, hserved⟩

theorem Live.underway (h : Live start release w) : Underway start release w :=
  h.secured.elim fun _ h => h.2.underway

theorem Recorded.add (h : Recorded start release w) (he : e.call ≠ .liveHealth) :
    Recorded start release ⟨w.files, w.trace.add e⟩ := by
  refine ⟨h.state, h.env, h.served.add he, ?_, ?_⟩
  · rw [Trace.all_add]
    exact h.backed.append e
  · rw [Guarded, Trace.all_add]
    exact Each.append h.guarded fun _ => h.backed

/-- The references of the release, which do not break a line. -/
def Release.references (release : Release) (c : Component) : Text := (release.images.get c).reference

theorem rawReference_release (release : Release) (c : Component) :
    rawReference (release.rawImages.get c) = some (release.references c) := by
  rw [Release.rawImages, Images.get_map]
  rfl

/-- Whichever of the two files is rewritten, the result is the pinned one. -/
theorem Working.pins (hplain : Plain release.references) (h : Working start release envText w)
    (hrewrite : rewriteEnvImages envText release.rawImages = .ok staged) : Pins start release staged := by
  rcases h.underway.env with henv | ⟨pinned, ⟨old, hold, hpinned⟩, henv⟩
  · exact ⟨envText, henv ▸ h.env, hrewrite⟩
  · obtain rfl : envText = pinned := Option.some.inj (h.env.symm.trans henv)
    have hagain := rewrite_again (rawReference_release release) hplain hpinned
    rw [hagain] at hrewrite
    cases hrewrite
    exact ⟨old, hold, hpinned⟩

theorem outside_holding {α : Type} {p : Io α} {K : World → Prop} (calls : p.Calls Call.Outside)
    (under : ∀ w, K w → Stands start release w)
    (add : ∀ (w : World) (e : Event), e.call.Outside → K w → K ⟨w.files, w.trace.add e⟩) :
    Holding start release K p fun _ => K := by
  refine Spec.of_calls calls (fun w e w' hout h hstep => ?_) under
  obtain ⟨-, hafter, hw⟩ := calm_some hstep
  rw [Files.after_quiet hout.quiet hafter] at hw
  exact hw ▸ add w e hout h

theorem Call.Outside.restarts {q : Call} (h : q.Outside) : q.restarts = false := by
  cases q <;> first | rfl | cases h

theorem ask_readEnv (under : ∀ w, P w → Underway start release w)
    (add : ∀ (w : World) (e : Event), e.call = .readEnv → P w → P ⟨w.files, w.trace.add e⟩) :
    Holding start release P (ask .readEnv) fun envText w => P w ∧ Working start release envText w := by
  refine ask_plain trivial rfl under fun w envText h _ hafter => ⟨add w _ rfl h, ?_⟩
  have henv : w.files.env = some envText := (Option.ite_none_right_eq_some.mp hafter).1
  exact ⟨under _ (add w _ rfl h), henv⟩

theorem throwNew_holding {α : Type} {parts : List Text} {R : α → World → Prop}
    (stands : ∀ w, P w → Stands start release w) : Holding start release P (throwNew parts) R :=
  Spec.fail stands

theorem ask_unlinkPending : Holding start release (Recorded start release) (ask .unlinkPending)
      fun _ w => Recorded start release w ∧ w.files.pending = none := by
  refine Spec.call (fun w h => .inr h) (fun w a w' h hstep => ?_) fun w e w' h hstep => ?_
  · obtain ⟨-, hafter, hw⟩ := calm_some hstep
    rw [hw, ← Option.some.inj hafter]
    have hbase : Recorded start release ⟨{ w.files with pending := none }, w.trace⟩ :=
      ⟨h.state, h.env, h.served, h.backed, h.guarded⟩
    exact ⟨hbase.add (by simp), rfl⟩
  · obtain ⟨-, hafter, hw⟩ := calm_some hstep
    rw [hw, ← Option.some.inj hafter]
    exact .inr (h.add (by simp))

theorem ask_liveHealth_holding {R : World → Prop} (under : ∀ w, P w → Underway start release w)
    (add : ∀ w e, P w → R ⟨w.files, w.trace.add e⟩) :
    Holding start release P (ask .liveHealth) fun live w => R w ∧
      ∀ version commit, live.serves version commit = true → Served version commit w.trace :=
  ask_plain trivial rfl under fun w _ h _ _ => ⟨add w _ h, fun _ _ => served_now⟩

theorem ask_working {q : Call} (hquiet : q.Quiet) (hrestart : q.restarts = false) :
    Holding start release (Working start release envText) (ask q) fun _ => Working start release envText :=
  ask_plain hquiet hrestart (fun _ h => h.underway) fun _ _ h _ _ => h.add hrestart

theorem ask_secured {q : Call} (hquiet : q.Quiet) :
    Holding start release (Secured start release envText) (ask q) fun _ => Secured start release envText :=
  ask_quiet hquiet (fun _ h => h.underway) (fun _ h _ _ => h.backed) fun _ _ h _ _ => h.add

theorem ask_writePending {R : World → Prop} (under : ∀ w, P w → Underway start release w)
    (ok : ∀ w e, e.call = .writePending record → P w →
      R ⟨{ w.files with pending := some (.holds record) }, w.trace.add e⟩) :
    Holding start release P (ask (.writePending record)) fun _ => R :=
  ask_write _ (fun _ _ => rfl) rfl under fun w _ h => ok w _ rfl h

theorem ask_switchTraffic : Holding start release
      (fun w => ∃ staged, Pins start release staged ∧ Staged start release envText staged w)
      (ask .switchTraffic) fun report w => report.ok = true ∧ w.trace.call.any isSwitch = true ∧
        ∃ pinned, Pins start release pinned ∧ Secured start release pinned w := by
  refine ask_under (fun w ⟨_, _, h⟩ => h.underway) (fun w ⟨_, _, h⟩ _ _ => h.backed)
    fun w report files ⟨staged, hpins, h⟩ hfine hafter => ?_
  simp only [Files.after, h.staging, Option.map_some] at hafter
  cases hafter
  refine ⟨by simpa [disturbed] using hfine, by simp [Trace.add, isSwitch], staged, hpins, ?_⟩
  exact Secured.add ⟨⟨h.underway.setEnv hpins, rfl⟩, h.backed⟩

section
variable (hplain : Plain release.references)
include hplain

theorem convergePinnedEnv_holding : Holding start release
      (fun w => Secured start release envText w ∧ Served (some release.version) (some release.commit) w.trace)
      (convergePinnedEnv release) fun _ => Live start release := by
  refine Spec.bind (ask_readEnv (fun w h => h.1.underway) fun w e he h =>
    ⟨h.1.add, h.2.add (by simp [he])⟩) fun text => ?_
  refine Spec.bind (Spec.ofExcept fun w _ h => .inl h.2.underway) fun pinned => ?_
  split
  · next hsame =>
    refine Spec.pure fun w ⟨⟨⟨hsecured, hserved⟩, hworking⟩, hrewrite⟩ => ?_
    exact ⟨⟨pinned, hworking.pins hplain hrewrite, ⟨hsame ▸ hworking, hsecured.backed⟩⟩, hserved⟩
  · refine Spec.assume (fun w h => h.1.2.pins hplain h.2) fun hpins => ?_
    refine Spec.bind (ask_write (R := fun _ => Secured start release pinned) _ (fun _ _ => rfl) rfl
      (fun w h => h.1.2.underway) fun w _ h =>
        Secured.add ⟨⟨h.1.2.underway.setEnv hpins, rfl⟩, h.1.1.1.backed⟩) fun _ => ?_
    refine Spec.bind (ask_secured trivial) fun up => ?_
    split
    · exact throwNew_holding fun w h => .inl h.underway
    · refine Spec.bind (ask_liveHealth_holding (R := Secured start release pinned) (fun w h => h.underway)
        fun w e h => h.add) fun live => ?_
      split
      · exact throwNew_holding fun w h => .inl h.1.underway
      · next hserves =>
        exact Spec.pure fun w h => ⟨⟨pinned, hpins, h.1⟩, h.2 _ _ (by simpa using hserves)⟩

theorem ensureStaging_holding {staged : Text} (hpins : Pins start release staged) :
    Holding start release (Staged start release envText staged) (ensureStaging release)
      fun _ w => ∃ staged, Pins start release staged ∧ Staged start release envText staged w := by
  refine Spec.bind (ask_plain (R := fun _ => Staged start release envText staged) trivial rfl
    (fun w h => h.underway) fun w _ h _ _ => h.add) fun found => ?_
  split
  · exact Spec.pure fun w h => ⟨staged, hpins, h⟩
  · refine Spec.bind (ask_readEnv (fun w h => h.underway) fun w e _ h => h.add) fun text => ?_
    refine Spec.bind (Spec.ofExcept fun w _ h => .inl h.2.underway) fun again => ?_
    refine ask_write _ (fun _ _ => rfl) rfl (fun w h => h.1.2.underway) fun w _ h => ?_
    have hbase : Staged start release envText again ⟨{ w.files with staging := some again }, w.trace⟩ :=
      ⟨⟨⟨h.1.2.underway.setStaging, h.1.1.env⟩, h.1.1.backed⟩, rfl⟩
    exact ⟨again, h.1.2.pins hplain h.2, hbase.add⟩

end

section
variable (hpromotes : Promotes start release)
include hpromotes

theorem prepare_holding {pending : Option Pending} : Holding start release
      (fun w => Working start release envText w ∧
        ∀ record, pending = some record → record.backup.isSome = true → BackedUp w.trace.all)
      (prepare release envText pending)
      fun record w => Working start release envText w ∧
        (record.backup.isSome = true → BackedUp w.trace.all) := by
  cases pending with
  | some record => exact Spec.pure fun w h => ⟨h.1, h.2 record rfl⟩
  | none =>
    refine Spec.bind (ask_plain (R := fun _ => Working start release envText) trivial rfl
      (fun w h => h.1.underway) fun w _ h _ _ => h.1.add rfl) fun startedAt => ?_
    refine Spec.bind (Spec.ofExcept fun w _ h => .inl h.underway) fun previousImages => ?_
    refine Spec.bind (ask_write (R := fun _ => Working start release envText) _ (fun _ _ => rfl) rfl
      (fun w h => h.1.underway) fun w _ h => ?_) fun _ => ?_
    · refine Working.add ⟨h.1.underway.setPending hpromotes fun hnone => ?_, h.1.env⟩ rfl
      cases hnone
    · refine Spec.pure fun w h => ⟨h, fun hnone => ?_⟩
      cases hnone

variable {paths : Paths} {record : Pending} {state : State}

theorem backUp_holding : Holding start release
      (fun w => Working start release envText w ∧ (record.backup.isSome = true → BackedUp w.trace.all))
      (backUp paths release record) fun _ => Secured start release envText := by
  have hkept : Holding start release
      (fun w => Working start release envText w ∧ (record.backup.isSome = true → BackedUp w.trace.all))
      (backupKept record)
      fun kept w => Working start release envText w ∧ (kept = true → BackedUp w.trace.all) := by
    unfold backupKept
    split
    · next backup hbackup =>
      refine ask_plain trivial rfl (fun w h => h.1.underway) fun w kept h _ _ => ⟨h.1.add rfl, fun _ => ?_⟩
      rw [Trace.all_add]
      exact (h.2 (by simp [hbackup])).append _
    · exact Spec.pure fun w h => ⟨h.1, fun h => by cases h⟩
  refine Spec.bind hkept fun kept => ?_
  split
  · next hkept => exact Spec.pure fun w h => ⟨h.1, h.2 hkept⟩
  · refine Spec.bind ((ask_working (by trivial) rfl).pre fun w h => h.1) fun recipients => ?_
    refine Spec.bind (Spec.ofExcept fun w _ h => .inl h.underway) fun _ => ?_
    refine Spec.bind ((ask_working (by trivial) rfl).pre fun w h => h.1) fun time => ?_
    refine Spec.bind (ask_working trivial rfl) fun _ => ?_
    refine Spec.bind (ask_plain (R := fun _ => Secured start release envText) trivial rfl
      (fun w h => h.underway) fun w taken h _ _ => ⟨h.add rfl, ?_⟩) fun taken => ?_
    · rw [Trace.all_add]
      exact ⟨_, List.mem_append_right _ (List.mem_singleton.mpr rfl), rfl⟩
    · refine Spec.bind (ask_writePending (fun w h => h.underway) fun w _ _ h =>
        (h.setPending hpromotes).add) fun _ => ?_
      exact Spec.pure fun w h => h

theorem rehearse_holding :
    Holding start release (Secured start release envText) (rehearse state release record)
      fun _ => Secured start release envText := by
  unfold rehearse
  split
  · exact Spec.pure fun w h => h
  · have hwrite : ∀ record, Holding start release (Secured start release envText)
        (ask (.writePending record)) fun _ => Secured start release envText :=
      fun record => ask_writePending (fun w h => h.underway) fun w _ _ h => (h.setPending hpromotes).add
    refine Spec.bind (ask_secured trivial) fun rehearsal => Spec.bind (ask_secured trivial) fun time => ?_
    split
    · exact Spec.bind (hwrite _) fun _ => throwNew_holding fun w h => .inl h.underway
    · exact Spec.bind (hwrite _) fun _ => Spec.pure fun w h => h

/-- The release is recorded, and then the pending record is removed. -/
theorem completeDeployment_holding (hstate : start.state = some state) :
    Holding start release (Live start release) (completeDeployment state release record)
      fun _ w => Recorded start release w ∧ w.files.pending = none := by
  refine Spec.bind (ask_plain (R := fun _ => Live start release) trivial rfl (fun w h => h.underway)
    fun w _ h _ _ => h.add (by simp)) fun time => ?_
  refine Spec.bind (ask_write (R := fun _ => Recorded start release) _ (fun _ _ => rfl) rfl
    (fun w h => h.underway) fun w _ h => ?_) fun _ => ?_
  · obtain ⟨⟨pinned, hpins, hsecured⟩, hserved⟩ := h
    have hbase : Recorded start release
        ⟨{ w.files with deployed := some (.holds (deployedState state release record time)) }, w.trace⟩ :=
      ⟨⟨state, record, time, hstate, rfl⟩, ⟨pinned, hpins, hsecured.env⟩, hserved, hsecured.backed,
        hsecured.underway.guarded hpromotes⟩
    exact hbase.add (by simp)
  · exact Spec.bind ask_unlinkPending fun _ => Spec.pure fun w h => h

theorem switchRelease_holding (hplain : Plain release.references) {staged : Text}
    (hstate : start.state = some state) (hpins : Pins start release staged) :
    Holding start release (Staged start release envText staged) (switchRelease paths state release record)
      fun _ w => Recorded start release w ∧ w.files.pending = none := by
  refine Spec.bind (ask_writePending (fun w h => h.underway) fun w _ _ h =>
    (h.setPending hpromotes).add) fun _ => ?_
  refine Spec.bind (ensureStaging_holding hplain hpins) fun _ => ?_
  refine Spec.bind ask_switchTraffic fun switched => ?_
  refine Spec.assume (fun w h => h.1) fun hok => ?_
  rw [if_neg (by simp [hok])]
  refine Spec.bind (ask_plain (q := .liveHealth) (R := fun live w =>
    live.serves (some release.version) (some release.commit) = true ∧ Live start release w) trivial rfl
    (fun w ⟨_, _, _, _, h⟩ => h.underway) fun w live ⟨_, hswitch, pinned, hpins, h⟩ hfine _ => ?_)
    fun live => ?_
  · have hserves : live.serves (some release.version) (some release.commit) = true := by
      simpa [disturbed, hswitch] using hfine
    exact ⟨hserves, ⟨pinned, hpins, h.add⟩, served_now hserves⟩
  refine Spec.assume (fun w h => h.1) fun hserves => ?_
  simp only [Health.serves, Bool.and_eq_true, beq_iff_eq] at hserves
  rw [if_neg (by simp [hserves.1.1]), if_neg (by simp [hserves.1.2, hserves.2])]
  refine Spec.bind (ask_writePending (fun w h => h.2.underway) fun w e he h =>
    (h.2.setPending hpromotes).add (by simp [he])) fun _ => ?_
  exact completeDeployment_holding hpromotes hstate

theorem promote_holding (hplain : Plain release.references)
    {pending : Option Pending} (hstate : start.state = some state) : Holding start release
      (fun w => Underway start release w ∧
        ∀ record, pending = some record → record.backup.isSome = true → BackedUp w.trace.all)
      (promote paths state release pending)
      fun _ w => Recorded start release w ∧ w.files.pending = none := by
  have hadd : ∀ (w : World) (e : Event), (∀ record, pending = some record →
      record.backup.isSome = true → BackedUp w.trace.all) → ∀ record, pending = some record →
      record.backup.isSome = true → BackedUp (w.trace.add e).all := by
    intro w e h record hrecord hbackup
    rw [Trace.all_add]
    exact (h record hrecord hbackup).append e
  refine Spec.bind (ask_readEnv (fun w h => h.1) fun w e he h =>
    ⟨h.1.add fun hr => absurd hr (by simp [he, Call.restarts]), hadd w e h.2⟩) fun envText => ?_
  refine Spec.bind ((outside_holding verifyImages_calls (K := fun w => Working start release envText w ∧
    ∀ record, pending = some record → record.backup.isSome = true → BackedUp w.trace.all)
    (fun w h => .inl h.1.underway) fun w e he h => ⟨h.1.add he.restarts, hadd w e h.2⟩).pre
      fun w h => ⟨h.2, h.1.2⟩) fun _ => ?_
  refine Spec.bind (prepare_holding hpromotes) fun record => ?_
  refine Spec.bind (backUp_holding hpromotes) fun record => ?_
  refine Spec.bind (rehearse_holding hpromotes) fun record => ?_
  refine Spec.bind (ask_secured trivial) fun _ => ?_
  refine Spec.bind (Spec.ofExcept fun w _ h => .inl h.underway) fun staged => ?_
  refine Spec.assume (fun w h => h.1.pins hplain h.2) fun hpins => ?_
  refine Spec.bind (ask_write (R := fun _ => Staged start release envText staged) _ (fun _ _ => rfl) rfl
    (fun w h => h.1.underway) fun w _ h => ?_) fun _ => ?_
  · have hbase : Staged start release envText staged ⟨{ w.files with staging := some staged }, w.trace⟩ :=
      ⟨⟨⟨h.1.underway.setStaging, h.1.env⟩, h.1.backed⟩, rfl⟩
    exact hbase.add
  refine Spec.bind (outside_holding checkCandidate_calls (fun w h => .inl h.underway)
    fun w e _ h => h.add) fun _ => ?_
  refine Spec.bind (ask_writePending (fun w h => h.underway) fun w _ _ h =>
    (h.setPending hpromotes).add) fun _ => ?_
  refine Spec.bind (ask_liveHealth_holding (R := Staged start release envText staged) (fun w h => h.underway)
    fun w e h => h.add) fun live => ?_
  split
  · next hserves =>
    refine Spec.bind ((convergePinnedEnv_holding hplain).pre fun w h =>
      ⟨h.1.toSecured, h.2 _ _ hserves⟩) fun _ => ?_
    exact completeDeployment_holding hpromotes hstate
  · exact (switchRelease_holding hpromotes hplain hstate hpins).pre fun w h => h.1

end

/-! Attempts. -/

theorem calm_files (w : World) (e : Event) (w' : World) (h : calm release w e = some w') :
    w.files.after e = some w'.files := (calm_some h).2.1

theorem Underway.quiet (h : Underway start release w) (hstep : calm release w e = some w')
    (hquiet : e.call.Quiet) (hrestart : e.call.restarts = false) : Underway start release w' := by
  obtain ⟨-, hafter, hw⟩ := calm_some hstep
  rw [hw, Files.after_quiet hquiet hafter]
  exact h.add fun hr => absurd hr (by simp [hrestart])

theorem Recorded.quiet (h : Recorded start release w) (hstep : calm release w e = some w')
    (hquiet : e.call.Quiet) (hlive : e.call ≠ .liveHealth) : Recorded start release w' := by
  obtain ⟨-, hafter, hw⟩ := calm_some hstep
  rw [hw, Files.after_quiet hquiet hafter]
  exact h.add hlive

/-- An attempt to deploy what is current already may still pin the env file. -/
theorem convergePinnedEnv_unpromoted (hplain : Plain release.references) (hnot : ¬Promotes start release) :
    Holding start release (Underway start release) (convergePinnedEnv release)
      fun _ => Underway start release := by
  have hask : ∀ {q : Call}, q.Quiet → Holding start release (Underway start release) (ask q)
      fun _ => Underway start release := fun hquiet =>
    ask_quiet hquiet (fun _ h => h) (fun _ _ _ hpromotes => absurd hpromotes hnot)
      fun _ _ h _ _ => h.add fun _ hpromotes => absurd hpromotes hnot
  refine Spec.bind (ask_readEnv (fun w h => h) fun w e _ h =>
    h.add fun _ hpromotes => absurd hpromotes hnot) fun text => ?_
  refine Spec.bind (Spec.ofExcept fun w _ h => .inl h.1) fun pinned => ?_
  split
  · exact Spec.pure fun w h => h.1.1
  · refine Spec.bind (ask_write (R := fun _ => Underway start release) _ (fun _ _ => rfl)
      rfl (fun w h => h.1.1) fun w _ h => (h.1.1.setEnv (h.1.2.pins hplain h.2)).add
        fun _ hpromotes => absurd hpromotes hnot) fun _ => ?_
    refine Spec.bind (hask trivial) fun up => ?_
    split
    · exact throwNew_holding fun w h => .inl h
    · refine Spec.bind (hask trivial) fun live => ?_
      split
      · exact throwNew_holding fun w h => .inl h
      · exact Spec.pure fun w h => h

theorem underway_attempt (hplain : Plain release.references) :
    Holding start release (Underway start release) (deployRelease paths release)
      fun _ w => Recorded start release w ∧ w.files.pending = none := by
  refine Spec.bind (readDeployedState_host World.files calm_files (fun w h => .inl h) fun w e w' he h hstep =>
    h.quiet hstep (by simp [he, Call.Quiet]) (by simp [he, Call.restarts])) fun state => ?_
  refine Spec.assume (φ := start.state = some state) (fun w h => ?_) fun hstate => ?_
  · rw [← h.2, Files.state, Files.state, h.1.deployed]
  refine Spec.bind ((readPending_host World.files calm_files (fun w h => .inl h) fun w e w' he h hstep =>
    h.quiet hstep (by simp [he, Call.Quiet]) (by simp [he, Call.restarts])).pre fun w h => h.1)
    fun pending => ?_
  refine Spec.bind (Spec.ofExcept fun w _ h => .inl h.1) fun _ => ?_
  refine Spec.bind (Spec.ofExcept fun w _ h => .inl h.1.1) fun action => ?_
  refine Spec.assume (fun w h => h.2) fun hclass => ?_
  refine Spec.pre (P := fun w => Underway start release w ∧ Doc.read w.files.pending = some pending) ?_
    fun w h => h.1.1
  have hpromote : Promotes start release → Holding start release
      (fun w => Underway start release w ∧ Doc.read w.files.pending = some pending)
      (promote paths state release pending)
      fun _ w => Recorded start release w ∧ w.files.pending = none := fun hpromotes =>
    (promote_holding hpromotes hplain hstate).pre fun w h => ⟨h.1, fun record hrecord =>
      (h.1.pending record (hrecord ▸ h.2)).2⟩
  cases action with
  | noop =>
    have hnot : ¬Promotes start release := by
      rintro ⟨state', hstate', hclass'⟩
      cases hstate.symm.trans hstate'
      rw [hclass] at hclass'
      rcases hclass' with h | h <;> cases h
    cases pending with
    | some record => exact Spec.assume (fun w h => (h.1.pending record h.2).1) fun h => absurd h hnot
    | none =>
      refine Spec.bind ((outside_holding (K := Underway start release) verifyImages_calls
        (fun w h => .inl h) fun w e he h => h.add fun hr => absurd hr (by simp [he.restarts])).pre
          fun w h => h.1) fun _ => ?_
      exact Spec.bind (convergePinnedEnv_unpromoted hplain hnot) fun _ => throwNew_holding fun w h => .inl h
  | stale | conflict => exact throwNew_holding fun w h => .inl h.1
  | bootstrap => exact hpromote ⟨state, hstate, .inl hclass⟩
  | deploy => exact hpromote ⟨state, hstate, .inr hclass⟩

theorem classify_recorded {state : State} {time : Text} {action : Classification}
    (h : classifyDeployment (deployedState state release record time) release = .ok action) :
    action = .noop := by
  obtain ⟨order, horder, h⟩ := Outcome.except_bind_ok.mp h
  obtain rfl := compareVersions_self horder
  cases h
  simp [Release.identity]

theorem convergePinnedEnv_recorded (hplain : Plain release.references) :
    Holding start release (Recorded start release) (convergePinnedEnv release)
      fun _ => Recorded start release := by
  refine Spec.bind (Spec.call (R := fun text w => Recorded start release w ∧ w.files.env = some text)
    (fun w h => .inr h) (fun w text w' h hstep => ?_) fun w e w' h hstep =>
      .inr (h.quiet hstep trivial (by simp))) fun text => ?_
  · refine ⟨h.quiet hstep trivial (by simp), ?_⟩
    obtain ⟨-, hafter, -⟩ := calm_some hstep
    obtain ⟨henv, hfiles⟩ := Option.ite_none_right_eq_some.mp hafter
    rw [← Option.some.inj hfiles]
    exact henv
  refine Spec.bind (Spec.ofExcept fun w _ h => .inr h.1) fun staged => ?_
  refine Spec.assume (φ := staged = text) (fun w ⟨⟨h, henv⟩, hrewrite⟩ => ?_) fun hsame => ?_
  · obtain ⟨pinned, ⟨old, -, hpinned⟩, henv'⟩ := h.env
    obtain rfl : text = pinned := Option.some.inj (henv.symm.trans henv')
    rw [rewrite_again (rawReference_release release) hplain hpinned] at hrewrite
    exact (Except.ok.inj hrewrite).symm
  rw [if_pos hsame]
  exact Spec.pure fun w h => h.1.1

theorem recorded_attempt (hplain : Plain release.references) :
    Holding start release (Recorded start release) (deployRelease paths release)
      fun _ w => Recorded start release w ∧ w.files.pending = none := by
  refine Spec.bind (readDeployedState_host World.files calm_files (fun w h => .inr h) fun w e w' he h hstep =>
    h.quiet hstep (by simp [he, Call.Quiet]) (by simp [he])) fun state => ?_
  refine Spec.assume (φ := ∃ before record time, state = deployedState before release record time)
    (fun w h => ?_) fun ⟨before, record, time, hstate⟩ => ?_
  · obtain ⟨before, record, time, -, hdeployed⟩ := h.1.state
    have hread := h.2
    simp only [Files.state, hdeployed, Doc.read, Option.map_some, Option.getD_some,
      Option.some.injEq] at hread
    exact ⟨before, record, time, hread.symm⟩
  refine Spec.bind ((readPending_host World.files calm_files (fun w h => .inr h) fun w e w' he h hstep =>
    h.quiet hstep (by simp [he, Call.Quiet]) (by simp [he])).pre fun w h => h.1) fun pending => ?_
  refine Spec.bind (Spec.ofExcept fun w _ h => .inr h.1) fun _ => ?_
  refine Spec.bind (Spec.ofExcept fun w _ h => .inr h.1.1) fun action => ?_
  refine Spec.assume (fun w h => classify_recorded (hstate ▸ h.2)) fun hnoop => ?_
  refine Spec.pre (P := Recorded start release) ?_ fun w h => h.1.1.1
  subst hnoop
  cases pending with
  | some record => exact Spec.bind ask_unlinkPending fun _ => Spec.pure fun w h => h
  | none =>
    refine Spec.bind (outside_holding verifyImages_calls (fun w h => .inr h) fun w e he h =>
      h.add fun hlive => ?_) fun _ => ?_
    · rw [hlive] at he
      exact he
    · exact Spec.bind (convergePinnedEnv_recorded hplain) fun _ => throwNew_holding fun w h => .inr h

theorem attempt_stands (hplain : Plain release.references)
    {out : Outcome Err Deployed} (h : Stands start release w) (attempt : Attempt paths release w w' out) :
    out.Ends (Stands start release) (fun _ => Stands start release)
      (fun _ w => Recorded start release w ∧ w.files.pending = none) w' := by
  rcases h with h | h
  · refine underway_attempt hplain w.anew w' out ⟨h.deployed, h.env, fun record hrecord => ?_, ?_⟩ attempt
    · exact w.trace.all_anew.symm ▸ h.pending record hrecord
    · exact w.trace.all_anew.symm ▸ h.guarded
  · refine recorded_attempt hplain w.anew w' out ⟨h.state, h.env, ?_, ?_, ?_⟩ attempt
    · obtain ⟨live, hlast, hserves⟩ := h.served
      exact ⟨live, w.trace.all_anew.symm ▸ hlast, hserves⟩
    · exact w.trace.all_anew.symm ▸ h.backed
    · exact w.trace.all_anew.symm ▸ h.guarded

/-- Attempts one after the other, each returned, failed or stopped. -/
def Attempts (paths : Paths) (release : Release) : World → World → Prop :=
  ReflTransGen fun w w' => ∃ out, Attempt paths release w w' out

theorem attempts_stand (hplain : Plain release.references)
    (h : Stands start release w) (attempts : Attempts paths release w w') : Stands start release w' := by
  induction attempts with
  | refl => exact h
  | tail _ attempt ih =>
    obtain ⟨out, attempt⟩ := attempt
    have hends := attempt_stands hplain ih attempt
    cases out with
    | returned result => exact .inr hends.1
    | failed e => exact hends
    | stopped => exact hends

theorem stands_start (hpending : Doc.read start.pending = some none) :
    Stands start release ⟨start, .empty⟩ := by
  refine .inl ⟨rfl, .inl rfl, fun record hrecord => ?_, fun _ => Each.nil _⟩
  rw [hpending] at hrecord
  cases hrecord

end

structure Converged (start : Files) (release : Release) (w : World) : Prop where
  /-- The release is current, the record before it is its previous one, and the history has one
      entry more. -/
  record : ∃ before after current entry, start.state = some before ∧
    w.files.deployed = some (.holds after) ∧ after.current = some current ∧
    current.version = some release.version ∧ current.commit = some release.commit ∧
    current.setDigest = some release.setDigest ∧ current.images = some release.rawImages ∧
    current.previous = before.current.map Current.asPrevious ∧
    after.history = before.history ++ [entry] ∧ entry.version = some release.version ∧
    entry.setDigest = some release.setDigest
  /-- The env file has the three references, and every other line as it was. -/
  env : ∃ old new, start.env = some old ∧ w.files.env = some new ∧ Pinned release.references old new
  served : Served (some release.version) (some release.commit) w.trace
  backed : BackedUp w.trace.all
  guarded : Guarded w.trace.all
  pending : w.files.pending = none

/-- **A deployment converges.** From any files without a pending record, after any attempts that
    were stopped before any call or failed, without a failed switch or a failed check after one,
    an attempt that returns leaves the release recorded once, pinned, seen serving and backed up
    before the first restart, and no pending record. -/
theorem deployment_converges {sha256 : Text → Text} {text : Text} {raw : Manifest} {release : Release}
    (parsed : parseRelease sha256 text raw = .ok release) {paths : Paths} {start : Files}
    (hpending : Doc.read start.pending = some none) {w w' : World} {result : Deployed}
    (attempts : Attempts paths release ⟨start, .empty⟩ w)
    (last : Attempt paths release w w' (.returned result)) : Converged start release w' := by
  have hplain : Plain release.references := fun c => parseRelease_plain parsed c
  have hstands := attempts_stand hplain (stands_start hpending) attempts
  obtain ⟨hrecorded, hgone⟩ := attempt_stands hplain hstands last
  obtain ⟨state, record, time, hstate, hdeployed⟩ := hrecorded.state
  obtain ⟨pinned, ⟨old, hold, hpinned⟩, henv⟩ := hrecorded.env
  refine ⟨?_, ⟨old, pinned, hold, henv, ?_⟩, hrecorded.served, hrecorded.backed, hrecorded.guarded, hgone⟩
  · exact ⟨state, _, _, _, hstate, hdeployed, rfl, rfl, rfl, rfl, rfl, rfl, rfl, rfl, rfl⟩
  · exact rewrite_pinned (rawReference_release release) hplain hpinned

namespace Demo

def manifest (release : Release) : Manifest :=
  ⟨some 1, some release.version, some release.commit, some release.rawImages⟩

theorem manifest_parsed :
    parseRelease (fun _ => List.replicate 64 'b') [] (manifest (release "1.1.0" 'b')) =
      .ok (release "1.1.0" 'b') := by
  have hsome : (parseRelease (fun _ => List.replicate 64 'b') [] (manifest (release "1.1.0" 'b'))).toOption =
      some (release "1.1.0" 'b') := by decide +kernel
  generalize parseRelease (fun _ => List.replicate 64 'b') [] (manifest (release "1.1.0" 'b')) = parsed
    at hsome
  cases parsed with
  | error e => cases hsome
  | ok found => exact congrArg Except.ok (Option.some.inj hsome)

/-- A host that reports the release once there was a switch, and a script that is stopped after
    `limit` calls. -/
def attempt (limit : Nat) (release : Release) (w : World) : Option (World × Outcome Err Deployed) :=
  run (calm release) (fun w => reply release
    (fun log => if log.any isSwitch then healthy release else ⟨⟨false, none⟩, none, none⟩) true
    w.files w.trace.all) limit (deployRelease paths release) w.anew

theorem attempt_attempt {limit : Nat} {release : Release} {w w' : World} {out : Outcome Err Deployed}
    (h : attempt limit release w = some (w', out)) : Attempt paths release w w' out := run_runs h

def begun : Files := ⟨some (.holds (recorded (release "1.0.0" 'a'))), none, some envText, none⟩

/-- The first attempt to deploy 1.1.0 is stopped right after the switch, the second returns. -/
def interrupted : Option ((World × Outcome Err Deployed) × (World × Outcome Err Deployed)) :=
  (attempt 31 (release "1.1.0" 'b') ⟨begun, .empty⟩).bind fun first =>
    (attempt 100 (release "1.1.0" 'b') first.1).map fun second => (first, second)

def result? : Outcome Err Deployed → Option Deployed
  | .returned result => some result
  | _ => none

theorem crash_converges : ∃ w w' result, Attempts paths (release "1.1.0" 'b') ⟨begun, .empty⟩ w ∧
      w.files.deployed = begun.deployed ∧ w.trace.all.any isSwitch = true ∧
      Attempt paths (release "1.1.0" 'b') w w' (.returned result) ∧
      Converged begun (release "1.1.0" 'b') w' := by
  have hplay : interrupted.map (fun runs => (decide (runs.1.1.files.deployed = begun.deployed),
      runs.1.1.trace.all.any isSwitch, (result? runs.2.2).isSome)) = some (true, true, true) := by
    decide +kernel
  obtain ⟨⟨⟨w, out⟩, w', out'⟩, hruns, hcheck⟩ := Option.map_eq_some_iff.mp hplay
  unfold interrupted at hruns
  obtain ⟨first, hfirst, hruns⟩ := Option.bind_eq_some_iff.mp hruns
  obtain ⟨second, hsecond, hpair⟩ := Option.map_eq_some_iff.mp hruns
  obtain ⟨rfl, rfl⟩ := Prod.mk.inj hpair
  simp only [Prod.mk.injEq, decide_eq_true_eq] at hcheck
  obtain ⟨hdeployed, hswitch, hreturned⟩ := hcheck
  cases out' with
  | returned result =>
    have hattempts : Attempts paths (release "1.1.0" 'b') ⟨begun, .empty⟩ w :=
      .single ⟨out, attempt_attempt hfirst⟩
    exact ⟨w, w', result, hattempts, hdeployed, hswitch, attempt_attempt hsecond,
      deployment_converges manifest_parsed rfl hattempts (attempt_attempt hsecond)⟩
  | failed e => cases hreturned
  | stopped => cases hreturned

end Demo

end Sesame.Deploy
