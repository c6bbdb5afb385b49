import Mathlib.Logic.Relation
import SesameServer.Deploy.Program

/- The host that the deployment script runs on.

   1. `Log`, `Trace` — what was asked and answered, before the call and during it; `Each` — a
      property of every event given those before it; `Served` — what the last live check said.
   2. `Files`, `next` — the script's four files. Reads tell what a file holds, a write that fails
      changes nothing, and a switch that is carried out moves the staged file over the env file.
      Every other answer is free.
   3. `Operates` — one call of the script on a host, whichever way it ends.
   4. `readRecord_spec`, and `Outside`, `Preparatory`, `Aside` — what the stages ask for. -/
namespace Sesame.Deploy

open Script

/-! What was asked. -/

abbrev Log := List Event

/-- The events of earlier calls, and of the call that is under way. -/
structure Trace where
  past : Log
  call : Log

namespace Trace

def all (t : Trace) : Log := t.past ++ t.call

def add (t : Trace) (e : Event) : Trace := { t with call := t.call ++ [e] }

def anew (t : Trace) : Trace := ⟨t.all, []⟩

def empty : Trace := ⟨[], []⟩

theorem all_add (t : Trace) (e : Event) : (t.add e).all = t.all ++ [e] := by simp [all, add]

theorem all_anew (t : Trace) : t.anew.all = t.all := by simp [all, anew]

end Trace

def liveOf : Event → Option Health
  | ⟨.liveHealth, .ok live⟩ => some live
  | _ => none

def lastLive (log : Log) : Option Health := log.reverse.findSome? liveOf

theorem lastLive_append (log : Log) (e : Event) :
    lastLive (log ++ [e]) = (liveOf e).or (lastLive log) := by
  simp only [lastLive, List.reverse_append, List.reverse_singleton, List.singleton_append,
    List.findSome?_cons]
  cases liveOf e <;> rfl

variable {e : Event} {bad : Text} {q : Call}

theorem lastLive_other {log : Log} (h : e.call ≠ .liveHealth) :
    lastLive (log ++ [e]) = lastLive log := by
  have hnone : liveOf e = none := by
    obtain ⟨q, r⟩ := e
    cases q <;> first | exact absurd rfl h | rfl
  rw [lastLive_append, hnone, Option.none_or]

def isSwitch : Event → Bool
  | ⟨.switchTraffic, _⟩ => true
  | _ => false

/-- Every event of the log meets `Q`, given what came before it. -/
def Each (Q : Log → Event → Prop) (log : Log) : Prop :=
  ∀ before e after, log = before ++ e :: after → Q before e

theorem Each.nil (Q : Log → Event → Prop) : Each Q [] := by
  intro before e after h
  cases before <;> cases h

theorem Each.append {Q : Log → Event → Prop} {log : Log} (h : Each Q log) (last : Q log e) :
    Each Q (log ++ [e]) := by
  intro before x after heq
  rcases List.eq_nil_or_concat after with rfl | ⟨init, last', rfl⟩
  · obtain ⟨rfl, hx⟩ := List.append_inj' heq rfl
    obtain rfl := List.singleton_inj.mp hx
    exact last
  · rw [List.concat_eq_append, ← List.cons_append, ← List.append_assoc] at heq
    obtain ⟨rfl, -⟩ := List.append_inj' heq rfl
    exact h before x init rfl

/-- The last live check reported this version at this commit. -/
def Served (version commit : Option Text) (t : Trace) : Prop :=
  ∃ live, lastLive t.all = some live ∧ live.serves version commit = true

variable {commit : Option Text} {α : Type}

theorem Served.add {version : Option Text} {t : Trace} (h : Served version commit t)
    (hlive : e.call ≠ .liveHealth) : Served version commit (t.add e) := by
  obtain ⟨live, hlast, hserves⟩ := h
  exact ⟨live, by rw [Trace.all_add, lastLive_other hlive]; exact hlast, hserves⟩

theorem served_now {version : Option Text} {t : Trace} {live : Health}
    (h : live.serves version commit = true) : Served version commit (t.add ⟨.liveHealth, .ok live⟩) :=
  ⟨live, by rw [Trace.all_add, lastLive_append]; rfl, h⟩

/-! Files. -/

/-- A record's file: not JSON, JSON that is no record of schema 1, or a record. -/
inductive Doc (α : Type) where
  | garbled
  | foreign
  | holds (a : α)
  deriving DecidableEq

/-- What reading and parsing a record's file may answer. Only a file that is not there is
    reported as missing. -/
def Doc.answers {α : Type} [DecidableEq α] (file : Option (Doc α)) (bad : Text) :
    Except Err (Option α) → Bool
  | .ok found =>
    match file with
    | some (.holds a) => found = some a
    | some .foreign => found = none
    | _ => false
  | .error e => file.isNone || (e.code != some enoent && e.message != bad)

/-- The record that a reader finds; `none` if the file cannot be parsed. -/
def Doc.read {α : Type} : Option (Doc α) → Option (Option α)
  | none => some none
  | some .garbled => none
  | some .foreign => some none
  | some (.holds a) => some (some a)

theorem Doc.answers_ok [DecidableEq α] {file : Option (Doc α)} {found : Option α}
    (h : Doc.answers file bad (.ok found) = true) : Doc.read file = some found := by
  match file, h with
  | some (.holds a), h => exact congrArg some (of_decide_eq_true h).symm
  | some .foreign, h => exact congrArg some (of_decide_eq_true h).symm

theorem Doc.answers_missing [DecidableEq α] {file : Option (Doc α)} {e : Err}
    (h : Doc.answers file bad (.error e) = true) (hmissing : Missing bad e) :
    Doc.read file = some none := by
  cases file with
  | none => rfl
  | some doc =>
    simp only [Doc.answers, Option.isNone_some, Bool.false_or, Bool.and_eq_true, bne_iff_ne] at h
    rcases hmissing with hcode | hbad
    · exact absurd hcode h.1
    · exact absurd hbad h.2

structure Files where
  deployed : Option (Doc State)
  pending : Option (Doc Pending)
  env : Option Text
  staging : Option Text
  deriving DecidableEq

/-- The files after an answer; `none` if the host does not give it. -/
def Files.after (files : Files) : Event → Option Files
  | ⟨.readDeployed, r⟩ => if Doc.answers files.deployed badState r then some files else none
  | ⟨.readPending, r⟩ => if Doc.answers files.pending badPending r then some files else none
  | ⟨.readEnv, .ok text⟩ => if files.env = some text then some files else none
  | ⟨.writeDeployed state, .ok _⟩ => some { files with deployed := some (.holds state) }
  | ⟨.writePending record, .ok _⟩ => some { files with pending := some (.holds record) }
  | ⟨.unlinkPending, .ok _⟩ => some { files with pending := none }
  | ⟨.writeEnv text, .ok _⟩ => some { files with env := some text }
  | ⟨.writeStaging text, .ok _⟩ => some { files with staging := some text }
  | ⟨.stagingExists, .ok true⟩ => if files.staging.isSome then some files else none
  -- the rename comes first: whether the restart succeeds or not, the env file is the staged one
  | ⟨.switchTraffic, .ok _⟩ => files.staging.map fun text =>
      { files with env := some text, staging := none }
  | _ => some files

variable {files files' : Files}

theorem Files.after_deployed (h : files.after e = some files') : files'.deployed = files.deployed ∨
      ∃ state, e.call = .writeDeployed state ∧ files'.deployed = some (.holds state) := by
  unfold Files.after at h
  split at h
  case h_4 =>
    cases h
    exact .inr ⟨_, rfl, rfl⟩
  case h_10 =>
    obtain ⟨text, -, rfl⟩ := Option.map_eq_some_iff.mp h
    exact .inl rfl
  all_goals
    first | cases h | obtain ⟨-, ⟨⟩⟩ := Option.ite_none_right_eq_some.mp h
    exact .inl rfl

def Call.Quiet : Call → Prop
  | .writeDeployed _ | .writePending _ | .unlinkPending | .writeEnv _ | .writeStaging _
  | .switchTraffic => False
  | _ => True

theorem Files.after_quiet (hq : e.call.Quiet) (h : files.after e = some files') : files' = files := by
  unfold Files.after at h
  split at h
  all_goals
    first
    | exact hq.elim
    | exact (Option.some.inj h).symm
    | exact (Option.some.inj (Option.ite_none_right_eq_some.mp h).2).symm

theorem Files.after_error {error : Err} (h : files.after ⟨q, .error error⟩ = some files') :
    files' = files := by
  cases q <;> first
    | exact (Option.some.inj h).symm
    | exact (Option.some.inj (Option.ite_none_right_eq_some.mp h).2).symm

structure World where
  files : Files
  trace : Trace

def World.anew (w : World) : World := { w with trace := w.trace.anew }

def next (w : World) (e : Event) : Option World :=
  (w.files.after e).map fun files => ⟨files, w.trace.add e⟩

variable {w w' : World}

theorem next_eq_some (h : next w e = some w') :
    w.files.after e = some w'.files ∧ w'.trace = w.trace.add e := by
  simp only [next, Option.map_eq_some_iff] at h
  obtain ⟨files, hfiles, rfl⟩ := h
  exact ⟨hfiles, rfl⟩

/-- The state that the script starts from. -/
def Files.state (files : Files) : Option State := (Doc.read files.deployed).map (·.getD .empty)

/-! Calls of the script. -/

inductive Operation where
  | deploy (release : Release)
  | rollback (targetVersion : Option Text)

/-- One call of the script, returned, failed or stopped on its way. -/
def Operation.Performed {σ : Type} (step : σ → Event → Option σ) (paths : Paths) (s s' : σ) :
    Operation → Prop
  | .deploy release => ∃ out, Runs step s (deployRelease paths release) s' out
  | .rollback target => ∃ out, Runs step s (rollbackRelease target) s' out

def Operates (paths : Paths) (w w' : World) : Prop :=
  ∃ op : Operation, op.Performed next paths w.anew w'

/-! What the stages do, on any host. -/

theorem readRecord_spec {σ : Type} {step : σ → Event → Option σ} {I P : σ → Prop}
    {read : Io (Option α)} {R : Option α → σ → Prop}
    (hread : Spec step I (fun e s => (Missing bad e → R none s) ∧ (¬Missing bad e → I s)) P read R) :
    Within step I P (readRecord read bad) R := by
  refine (Spec.bind hread fun found => ?_).catchWith fun e => ?_
  · cases found with
    | some record => exact Spec.pure fun s h => h
    | none => exact Spec.fail fun s h => ⟨fun _ => h, fun hne => absurd (.inr (by simp)) hne⟩
  · by_cases hmissing : Missing bad e
    · rw [if_pos hmissing]
      exact Spec.pure fun s h => h.1 hmissing
    · rw [if_neg hmissing]
      exact Spec.fail fun s h => h.2 hmissing

section
variable {σ : Type} {step : σ → Event → Option σ} (files : σ → Files)
  (host : ∀ s e s', step s e = some s' → (files s).after e = some (files s')) {I P : σ → Prop}
  (stop : ∀ s, P s → I s)
include host stop

theorem readDeployedState_host
    (keeps : ∀ s e s', e.call = .readDeployed → P s → step s e = some s' → P s') :
    Within step I P readDeployedState fun state s => P s ∧ (files s).state = some state := by
  have hfiles : ∀ s r s', step s ⟨.readDeployed, r⟩ = some s' →
      Doc.answers (files s).deployed badState r = true ∧ files s' = files s := fun s r s' hstep =>
    ⟨(Option.ite_none_right_eq_some.mp (host _ _ _ hstep)).1,
      Files.after_quiet (by trivial) (host _ _ _ hstep)⟩
  refine Spec.bind (readRecord_spec (R := fun found s => P s ∧ Doc.read (files s).deployed = some found)
    (Spec.call stop ?_ ?_)) fun found => Spec.pure fun s h => ⟨h.1, by simp [Files.state, h.2]⟩
  · intro s found s' hp hstep
    obtain ⟨hanswer, heq⟩ := hfiles _ _ _ hstep
    exact ⟨keeps _ _ _ rfl hp hstep, heq ▸ Doc.answers_ok hanswer⟩
  · intro s e s' hp hstep
    obtain ⟨hanswer, heq⟩ := hfiles _ _ _ hstep
    have hp' := keeps _ _ _ rfl hp hstep
    exact ⟨fun hmissing => ⟨hp', heq ▸ Doc.answers_missing hanswer hmissing⟩, fun _ => stop _ hp'⟩

theorem readPending_host (keeps : ∀ s e s', e.call = .readPending → P s → step s e = some s' → P s') :
    Within step I P readPending fun found s => P s ∧ Doc.read (files s).pending = some found := by
  have hfiles : ∀ s r s', step s ⟨.readPending, r⟩ = some s' →
      Doc.answers (files s).pending badPending r = true ∧ files s' = files s := fun s r s' hstep =>
    ⟨(Option.ite_none_right_eq_some.mp (host _ _ _ hstep)).1,
      Files.after_quiet (by trivial) (host _ _ _ hstep)⟩
  refine readRecord_spec (Spec.call stop ?_ ?_)
  · intro s found s' hp hstep
    obtain ⟨hanswer, heq⟩ := hfiles _ _ _ hstep
    exact ⟨keeps _ _ _ rfl hp hstep, heq ▸ Doc.answers_ok hanswer⟩
  · intro s e s' hp hstep
    obtain ⟨hanswer, heq⟩ := hfiles _ _ _ hstep
    have hp' := keeps _ _ _ rfl hp hstep
    exact ⟨fun hmissing => ⟨hp', heq ▸ Doc.answers_missing hanswer hmissing⟩, fun _ => stop _ hp'⟩

end

/-- Calls that touch none of the script's files and start nothing. -/
def Call.Outside : Call → Prop
  | .pullImage _ | .inspectImage _ | .verifyImageAttestation _ | .now | .mkdirp _ | .backupExists _
  | .backupRecipients | .rehearse _ _ | .runMigrations | .candidateHealth => True
  | _ => False

/-- Calls before a switch: the pending record and the staged file may change. -/
def Call.Preparatory : Call → Prop
  | .readDeployed | .writeDeployed _ | .unlinkPending | .writeEnv _ | .switchTraffic | .composeUp
  | .liveHealth => False
  | _ => True

/-- Calls that do not concern `deployed.json`. -/
def Call.Aside : Call → Prop
  | .readDeployed | .writeDeployed _ => False
  | _ => True

theorem Call.Preparatory.aside (h : q.Preparatory) : q.Aside := by
  cases q <;> trivial

theorem Call.Aside.ne_read (h : q.Aside) : q ≠ .readDeployed := by
  rintro rfl
  exact h

theorem Call.Aside.ne_write (h : q.Aside) (state : State) : q ≠ .writeDeployed state := by
  rintro rfl
  exact h

theorem Call.Outside.quiet (h : q.Outside) : q.Quiet := by
  cases q <;> trivial

theorem Call.Outside.preparatory (h : q.Outside) : q.Preparatory := by
  cases q <;> trivial

section
open Prog

theorem verifyImage_calls {version : Text} {expected : Image} {target : AttestationTarget}
    {component : Component} :
    (verifyImage version commit expected target component).Calls Call.Outside := by
  refine calls_bind (calls_call trivial) fun _ => calls_bind (calls_call trivial) fun image => ?_
  cases image with
  | none => trivial
  | some image =>
    dsimp only
    split
    · trivial
    · split
      · trivial
      · exact calls_call trivial

theorem verifyImages_calls {version : Text} {images : Images Image} :
    (verifyImages version commit images).Calls Call.Outside := by
  refine calls_bind (calls_ofExcept _) fun _ => calls_bind (calls_ofExcept _) fun _ =>
    calls_bind (calls_ofExcept _) fun _ => ?_
  exact calls_bind verifyImage_calls fun _ => calls_bind verifyImage_calls fun _ => verifyImage_calls

variable {release : Release} {record : Pending}

theorem checkCandidate_calls : (checkCandidate release).Calls Call.Outside := by
  refine calls_bind (calls_call trivial) fun migrations => ?_
  split
  · trivial
  · refine calls_bind (calls_call trivial) fun candidate => ?_
    split
    · trivial
    · split <;> trivial

theorem readPending_calls : readPending.Calls Call.Preparatory := by
  refine calls_catchWith (calls_bind (calls_call trivial) fun found => ?_) fun e => ?_
  · cases found <;> trivial
  · split <;> trivial

theorem prepare_calls {envText : Text} {pending : Option Pending} :
    (prepare release envText pending).Calls Call.Preparatory := by
  cases pending with
  | some record => trivial
  | none =>
    refine calls_bind (calls_call trivial) fun _ => calls_bind (calls_ofExcept _) fun _ => ?_
    exact calls_bind (calls_call trivial) fun _ => trivial

theorem backupKept_calls : (backupKept record).Calls Call.Outside := by
  unfold backupKept
  split
  · exact calls_call trivial
  · trivial

theorem backUp_calls {paths : Paths} : (backUp paths release record).Calls Call.Preparatory := by
  refine calls_bind (backupKept_calls.mono fun _ => Call.Outside.preparatory) fun kept => ?_
  split
  · trivial
  · refine calls_bind (calls_call trivial) fun _ => calls_bind (calls_ofExcept _) fun _ => ?_
    refine calls_bind (calls_call trivial) fun _ => calls_bind (calls_call trivial) fun _ => ?_
    exact calls_bind (calls_call trivial) fun _ => calls_bind (calls_call trivial) fun _ => trivial

theorem rehearse_calls {state : State} :
    (rehearse state release record).Calls Call.Preparatory := by
  unfold rehearse
  split
  · trivial
  · refine calls_bind (calls_call trivial) fun _ => calls_bind (calls_call trivial) fun _ => ?_
    split
    · exact calls_bind (calls_call trivial) fun _ => trivial
    · exact calls_bind (calls_call trivial) fun _ => trivial

theorem convergePinnedEnv_calls : (convergePinnedEnv release).Calls Call.Aside := by
  refine calls_bind (calls_call trivial) fun envText => calls_bind (calls_ofExcept _) fun staged => ?_
  split
  · trivial
  · refine calls_bind (calls_call trivial) fun _ => calls_bind (calls_call trivial) fun up => ?_
    split
    · trivial
    · refine calls_bind (calls_call trivial) fun live => ?_
      split <;> trivial

theorem ensureStaging_calls : (ensureStaging release).Calls Call.Preparatory := by
  refine calls_bind (calls_call trivial) fun found => ?_
  split
  · trivial
  · refine calls_bind (calls_call trivial) fun _ => calls_bind (calls_ofExcept _) fun _ => ?_
    exact calls_call trivial

end

/-! A host to play on. -/

namespace Demo

def paths : Paths := ⟨"/srv/state".toList, "/srv/.env.production".toList⟩

def image (x : Char) (c : Component) : Image :=
  let name := "ghcr.io/usesesame/sesame-server-".toList ++ c.text
  let digest := "sha256:".toList ++ List.replicate 64 x
  ⟨name ++ '@' :: digest, name, digest⟩

def release (version : String) (x : Char) : Release :=
  ⟨version.toList, List.replicate 40 x, ⟨image x .api, image x .account, image x .admin⟩,
    List.replicate 64 x⟩

def envText : Text :=
  "SESAME_API_IMAGE=a\nSESAME_ACCOUNT_IMAGE=b\nSESAME_ADMIN_IMAGE=c\nTZ=UTC\n".toList

def missing : Err := ⟨"no such file".toList, some enoent⟩

def readDoc {α : Type} : Option (Doc α) → Except Err (Option α)
  | some (.holds a) => .ok (some a)
  | some .foreign => .ok none
  | _ => .error missing

/-- Everything works for `release`, but for what `live` and `switches` say. -/
def reply (release : Release) (live : Log → Health) (switches : Bool) (files : Files) (call : Log) :
    (q : Call) → Except Err (Answer q)
  | .readDeployed => readDoc files.deployed
  | .readPending => readDoc files.pending
  | .readEnv => match files.env with
    | some text => .ok text
    | none => .error missing
  | .stagingExists => .ok files.staging.isSome
  | .backupExists _ => .ok true
  | .now => .ok "2026-01-01T00:00:00.000Z".toList
  | .inspectImage reference => .ok (some ⟨[reference], some release.version, some release.commit⟩)
  | .backupRecipients => .ok ["age1".toList]
  | .takeBackup _ _ => .ok ("00".toList, 4096)
  | .rehearse _ _ | .runMigrations | .composeUp => .ok ⟨true, none⟩
  | .switchTraffic => .ok ⟨switches, none⟩
  | .candidateHealth => .ok ⟨⟨true, none⟩, some release.version, some release.commit⟩
  | .liveHealth => .ok (live call)
  | .writeDeployed _ | .writePending _ | .unlinkPending | .writeEnv _ | .writeStaging _ | .mkdirp _
  | .pullImage _ | .verifyImageAttestation _ => .ok ()

def healthy (release : Release) : Health := ⟨⟨true, none⟩, some release.version, some release.commit⟩

/-- `deployed.json` after a first deployment. -/
def recorded (release : Release) : State :=
  deployedState .empty release ⟨.switched, none, none, none, none, none⟩ []

/-- A deployment on a host that does not answer before the switch, and reports `release` after. -/
def deploys (release : Release) (w : World) : Option World :=
  (run next (fun w => reply release
    (fun call => if call.any isSwitch then healthy release else ⟨⟨false, none⟩, none, none⟩) true
    w.files w.trace.call) 100 (deployRelease paths release) w.anew).map (·.1)

def rollsBack (release : Release) (w : World) : Option World :=
  (run next (fun w => reply release (fun _ => healthy release) true w.files w.trace.call) 100
    (rollbackRelease (some release.version)) w.anew).map (·.1)

theorem deploys_performed {release : Release} (h : deploys release w = some w') :
    (Operation.deploy release).Performed next paths w.anew w' := by
  obtain ⟨⟨w', out⟩, hrun, rfl⟩ := Option.map_eq_some_iff.mp h
  exact ⟨out, run_runs hrun⟩

theorem rollsBack_performed {release : Release} (h : rollsBack release w = some w') :
    (Operation.rollback (some release.version)).Performed next paths w.anew w' := by
  obtain ⟨⟨w', out⟩, hrun, rfl⟩ := Option.map_eq_some_iff.mp h
  exact ⟨out, run_runs hrun⟩

end Demo

end Sesame.Deploy
