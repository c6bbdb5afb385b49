import SesameServer.Deploy.Env
import SesameServer.Lib.Script

/- The deployment script (`deployRelease` and `rollbackRelease` of
   `scripts/deploy-release-lib.mjs`), as a script over the calls that it makes through `io`.

   1. Records — `deployed.json` and `pending.json`. A field that a record lacks is `none`.
   2. `Call`, `Answer` — what is asked of the host. Reading a record is one call: the file is
      read and parsed, and what is not a record of schema 1 is answered with `none`.
   3. `readDeployedState`, `readPending`, `classifyDeployment`, `verifyImages`,
      `convergePinnedEnv`.
   4. `deployRelease` and its stages, `completeDeployment`, `recoverFailedSwitch`.
   5. `rollbackRelease`. -/
namespace Sesame.Deploy

open Script

/-! Records. -/

structure Backup where
  file : Text
  sha256 : Text
  bytes : Nat
  deriving DecidableEq

structure Identity where
  version : Option Text := none
  commit : Option Text := none
  setDigest : Option Text := none
  images : Option RawImages := none
  backup : Option Backup := none
  deriving DecidableEq

structure Current extends Identity where
  deployedAt : Option Text
  previous : Option Identity
  deriving DecidableEq

inductive Action where
  | deploy | bootstrap | rollback | other
  deriving DecidableEq

structure Entry extends Identity where
  action : Action
  fromVersion : Option Text
  time : Option Text
  deriving DecidableEq

/-- `deployed.json`. -/
structure State where
  current : Option Current
  history : List Entry
  deriving DecidableEq

def State.empty : State := ⟨none, []⟩

inductive Phase where
  | prepared | checked | switching | switched | other
  deriving DecidableEq

structure Rehearsal where
  ok : Bool
  error : Option Text
  time : Option Text
  deriving DecidableEq

/-- `pending.json`. -/
structure Pending where
  phase : Phase
  release : Option Identity
  startedAt : Option Text
  previousImages : Option RawImages
  backup : Option Backup := none
  rehearsal : Option Rehearsal := none
  deriving DecidableEq

def Release.rawImages (release : Release) : RawImages := release.images.map fun image => some image.raw

/-- The release as records carry it. -/
def Release.identity (release : Release) : Identity where
  version := some release.version
  commit := some release.commit
  setDigest := some release.setDigest
  images := some release.rawImages

/-- `{ version, setDigest, images }` of the record that is left. -/
def Current.asPrevious (current : Current) : Identity where
  version := current.version
  setDigest := current.setDigest
  images := current.images

/-! Calls. -/

structure Report where
  ok : Bool
  error : Option Text := none
  deriving DecidableEq

structure Health extends Report where
  version : Option Text := none
  commit : Option Text := none
  deriving DecidableEq

def Health.serves (health : Health) (version commit : Option Text) : Bool :=
  health.ok && health.version == version && health.commit == commit

structure LocalImage where
  repoDigests : List Text
  version : Option Text
  revision : Option Text
  deriving DecidableEq

structure Paths where
  root : Text
  prodEnvPath : Text

inductive Call where
  | readDeployed
  | readPending
  | readEnv
  | writeDeployed (state : State)
  | writePending (record : Pending)
  | unlinkPending
  | writeEnv (text : Text)
  | writeStaging (text : Text)
  | stagingExists
  | backupExists (file : Text)
  | mkdirp (directory : Text)
  | now
  | pullImage (reference : Text)
  | inspectImage (reference : Text)
  | verifyImageAttestation (target : AttestationTarget)
  | backupRecipients
  | takeBackup (file : Text) (recipients : List Text)
  | rehearse (candidateRef : Text) (previousRef : Option Text)
  | runMigrations
  | candidateHealth
  | switchTraffic
  | composeUp
  | liveHealth

@[reducible] def Answer : Call → Type
  | .readDeployed => Option State
  | .readPending => Option Pending
  | .readEnv => Text
  | .stagingExists | .backupExists _ => Bool
  | .now => Text
  | .inspectImage _ => Option LocalImage
  | .backupRecipients => List Text
  | .takeBackup _ _ => Text × Nat
  | .rehearse _ _ | .runMigrations | .switchTraffic | .composeUp => Report
  | .candidateHealth | .liveHealth => Health
  | _ => Unit

abbrev Io := Prog Call Answer Err

abbrev Event := Script.Event Call Answer Err

def ask (q : Call) : Io (Answer q) := Prog.call q

/-- `throw new Error(…)`. -/
def throwNew {α : Type} (parts : List Text) : Io α := .fail ⟨parts.flatten, none⟩

/-- A value in a template. -/
def shown (t : Option Text) : Text := t.getD undefinedText

/-! Reading the records. -/

def enoent : Text := "ENOENT".toList

def badState : Text := "bad state".toList

def badPending : Text := "bad pending".toList

/-- The errors that mean there is no record. -/
def Missing (bad : Text) (error : Err) : Prop := error.code = some enoent ∨ error.message = bad

instance (bad : Text) (error : Err) : Decidable (Missing bad error) :=
  inferInstanceAs (Decidable (_ ∨ _))

/-- `try { … throw new Error(bad) … } catch (error) { … }` of both readers. -/
def readRecord {α : Type} (read : Io (Option α)) (bad : Text) : Io (Option α) :=
  (do
    match ← read with
    | some record => return some record
    | none => throwNew [bad]).catchWith fun error =>
  if Missing bad error then return none else .fail error

def readDeployedState : Io State := do
  let found ← readRecord (ask .readDeployed) badState
  return found.getD .empty

def readPending : Io (Option Pending) := readRecord (ask .readPending) badPending

inductive Classification where
  | bootstrap | noop | conflict | stale | deploy
  deriving DecidableEq

def classifyDeployment (state : State) (release : Release) : Except Err Classification :=
  match state.current with
  | none => .ok .bootstrap
  | some current => do
    match ← compareVersions release.version (shown current.version) with
    | .eq => return if current.setDigest = some release.setDigest then .noop else .conflict
    | .lt => return .stale
    | .gt => return .deploy

/-! Checking the images. -/

def verifyImage (version : Text) (commit : Option Text) (expected : Image) (target : AttestationTarget)
    (component : Component) : Io Unit := do
  ask (.pullImage expected.reference)
  match ← ask (.inspectImage expected.reference) with
  | none =>
    throwNew ["Image ".toList, expected.reference,
      " is unavailable after pulling. Check the host registry login.".toList]
  | some image =>
    if ¬image.repoDigests.any (('@' :: expected.digest).isSuffixOf ·) then
      throwNew ["Image ".toList, expected.reference, " does not carry digest ".toList, expected.digest,
        " locally.".toList]
    else if image.version ≠ some version ∨ image.revision ≠ commit then
      throwNew ["The ".toList, component.text, " image identity does not match release ".toList,
        version, " at ".toList, shown commit, ".".toList]
    else
      ask (.verifyImageAttestation target)

def verifyImages (version : Text) (commit : Option Text) (images : Images Image) : Io Unit := do
  let api ← .ofExcept (attestationTarget version images.api .api)
  let account ← .ofExcept (attestationTarget version images.account .account)
  let admin ← .ofExcept (attestationTarget version images.admin .admin)
  verifyImage version commit images.api api .api
  verifyImage version commit images.account account .account
  verifyImage version commit images.admin admin .admin

/-- The pinned env file is what every later restart uses. -/
def convergePinnedEnv (release : Release) : Io Unit := do
  let envText ← ask .readEnv
  let staged ← .ofExcept (rewriteEnvImages envText release.rawImages)
  if staged = envText then
    return ()
  else
    ask (.writeEnv staged)
    let up ← ask .composeUp
    if ¬up.ok then
      throwNew ["The pinned env drifted from the deployed release and the restart failed: ".toList,
        shown up.error, ". The env now pins ".toList, release.version,
        "; bring the stack up manually to converge.".toList]
    else
      let live ← ask .liveHealth
      if ¬live.serves (some release.version) (some release.commit) then
        throwNew ["The pinned env drifted from the deployed release and the restarted stack does not serve ".toList,
          release.version, ".".toList]
      else
        return ()

/-! Deploying. -/

structure Deployed where
  deployed : Text
  backup : Option Backup
  fromVersion : Option Text
  deriving DecidableEq

/-- The record of a release that is served. -/
def deployedState (state : State) (release : Release) (record : Pending) (time : Text) : State where
  current := some
    { release.identity with
      backup := record.backup
      deployedAt := some time
      previous := state.current.map Current.asPrevious }
  history := state.history ++
    [{ release.identity with
        backup := record.backup
        -- an empty version is as false as none
        action := if (state.current.bind (·.version)).any (!·.isEmpty) then .deploy else .bootstrap
        fromVersion := state.current.bind (·.version)
        time := some time }]

def completeDeployment (state : State) (release : Release) (record : Pending) : Io Deployed := do
  let time ← ask .now
  ask (.writeDeployed (deployedState state release record time))
  ask .unlinkPending
  return ⟨release.version, record.backup, state.current.bind (·.version)⟩

def preBootstrap : Text := "pre-bootstrap".toList

/-- The record of the release that is served again. -/
def restoredState (state : State) (release : Release) (time : Text) : State where
  current := state.current.map fun restored =>
    { restored.toIdentity with
      deployedAt := some time
      previous := none }
  history := state.history ++
    [match state.current with
      | some restored =>
        { restored.toIdentity with
          action := .rollback
          fromVersion := some release.version
          time := some time }
      | none =>
        { version := some preBootstrap
          action := .rollback
          fromVersion := some release.version
          time := some time }]

def recoverFailedSwitch (paths : Paths) (state : State) (release : Release) (record : Pending)
    (reason : Text) : Io Deployed := do
  let failed : List Text := ["Traffic switch failed (".toList, reason, ")".toList]
  match (state.current.bind (·.images)).or record.previousImages with
  | none =>
    throwNew (failed ++ [" and no previous image references are recorded. Manual recovery on the host is required.".toList])
  | some previousImages =>
    let restoredEnv ← (do
      let envText ← ask .readEnv
      .ofExcept (rewriteEnvImages envText previousImages) : Io Text).catchWith fun _ =>
        throwNew (failed ++ [" and the previous image references cannot be applied to ".toList,
          paths.prodEnvPath, ". Manual recovery on the host is required.".toList])
    ask (.writeEnv restoredEnv)
    let up ← ask .composeUp
    if ¬up.ok then
      throwNew (failed ++ [" and the rollback restart also failed: ".toList, shown up.error,
        ". Manual recovery on the host is required.".toList])
    else
      let live ← ask .liveHealth
      if ¬live.ok then
        throwNew (failed ++ ["; the rollback containers are up but health does not pass: ".toList,
          shown live.error, ". Manual recovery on the host is required.".toList])
      else
        let time ← ask .now
        ask (.writeDeployed (restoredState state release time))
        ask .unlinkPending
        throwNew (failed ++ ["; ".toList, (state.current.bind (·.version)).getD preBootstrap,
          " is serving again and the rollback was recorded.".toList])

/-- A new record, unless one was found. -/
def prepare (release : Release) (envText : Text) : Option Pending → Io Pending
  | some record => return record
  | none => do
    let startedAt ← ask .now
    let previousImages ← .ofExcept (readEnvImages envText)
    let record : Pending :=
      { phase := .prepared
        release := some release.identity
        startedAt := some startedAt
        previousImages := some previousImages }
    ask (.writePending record)
    return record

def assertBackupRecipients (recipients : List Text) : Except Err Unit :=
  if recipients = [] then
    raise ["No age recipients are configured. Set SESAME_BACKUP_AGE_RECIPIENTS so database backups are never written unencrypted.".toList]
  else .ok ()

/-- `.replace(/\..+$/, '')`. -/
def withoutFraction : Text → Text
  | [] => []
  | '.' :: rest =>
    if rest ≠ [] ∧ rest.all (!isLineTerminator ·) then [] else '.' :: withoutFraction rest
  | c :: rest => c :: withoutFraction rest

def stamp (time : Text) : Text :=
  let digits := time.filter fun c => c != '-' && c != ':'
  let marked := match digits.dropWhile (· != 'T') with
    | [] => digits
    | _ :: rest => digits.takeWhile (· != 'T') ++ '-' :: rest
  withoutFraction marked

/-- `record.backup && await io.exists(record.backup.file)`. -/
def backupKept (record : Pending) : Io Bool :=
  match record.backup with
  | some backup => ask (.backupExists backup.file)
  | none => return false

/-- The backup of an earlier attempt is kept if its file is still there. -/
def backUp (paths : Paths) (release : Release) (record : Pending) : Io Pending := do
  if ← backupKept record then
    return record
  else
    let recipients ← ask .backupRecipients
    .ofExcept (assertBackupRecipients recipients)
    let time ← ask .now
    let directory := paths.root ++ "/backups".toList
    let file := directory ++ "/sesame-".toList ++ release.version ++ '-' :: stamp time ++ ".sql.gz.age".toList
    ask (.mkdirp directory)
    let taken ← ask (.takeBackup file recipients)
    let record := { record with backup := some ⟨file, taken.1, taken.2⟩ }
    ask (.writePending record)
    return record

/-- `state.current?.images?.api?.reference ?? null`. -/
def previousRef (state : State) : Option Text :=
  match (state.current.bind (·.images)).bind (·.api) with
  | some (.named reference _ _) => reference
  | _ => none

def rehearse (state : State) (release : Release) (record : Pending) : Io Pending := do
  if record.rehearsal.any (·.ok) then
    return record
  else
    let rehearsal ← ask (.rehearse release.images.api.reference (previousRef state))
    let time ← ask .now
    if ¬rehearsal.ok then
      ask (.writePending { record with rehearsal := some ⟨false, rehearsal.error, some time⟩ })
      throwNew ["Migration rehearsal failed before promotion: ".toList, shown rehearsal.error,
        ". The previous revision is untouched; fix the cause and retry.".toList]
    else
      let record := { record with rehearsal := some ⟨true, none, some time⟩ }
      ask (.writePending record)
      return record

/-- A healthy candidate can still be the wrong revision. -/
def checkCandidate (release : Release) : Io Unit := do
  let still := ". The previous revision is still serving; resolve and retry the deploy.".toList
  let migrations ← ask .runMigrations
  if ¬migrations.ok then
    throwNew ["Migrations failed before the traffic switch: ".toList, shown migrations.error, still]
  else
    let candidate ← ask .candidateHealth
    if ¬candidate.ok then
      throwNew ["Candidate health check failed before the traffic switch: ".toList,
        shown candidate.error, still]
    else if candidate.version ≠ some release.version ∨ candidate.commit ≠ some release.commit then
      throwNew ["The candidate reports ".toList, shown candidate.version, " at ".toList,
        shown candidate.commit, " instead of ".toList, release.version, " at ".toList, release.commit,
        still]
    else
      return ()

/-- The staged file, once more if it was lost. -/
def ensureStaging (release : Release) : Io Unit := do
  if ← ask .stagingExists then
    return ()
  else
    let envText ← ask .readEnv
    let staged ← .ofExcept (rewriteEnvImages envText release.rawImages)
    ask (.writeStaging staged)

def switchRelease (paths : Paths) (state : State) (release : Release) (record : Pending) : Io Deployed := do
  let record := { record with phase := .switching }
  ask (.writePending record)
  ensureStaging release
  let switched ← ask .switchTraffic
  if ¬switched.ok then
    recoverFailedSwitch paths state release record
      ("traffic switch failed (".toList ++ shown switched.error ++ ")".toList)
  else
    let live ← ask .liveHealth
    if ¬live.ok then
      recoverFailedSwitch paths state release record
        ("health check after the switch failed (".toList ++ shown live.error ++ ")".toList)
    else if live.version ≠ some release.version ∨ live.commit ≠ some release.commit then
      recoverFailedSwitch paths state release record
        ("the live API reports ".toList ++ shown live.version ++ " at ".toList ++ shown live.commit ++
          " instead of ".toList ++ release.version ++ " at ".toList ++ release.commit)
    else
      let record := { record with phase := .switched }
      ask (.writePending record)
      completeDeployment state release record

/-- The deployment of a release that is newer than the recorded one. -/
def promote (paths : Paths) (state : State) (release : Release) (pending : Option Pending) :
    Io Deployed := do
  let envText ← ask .readEnv
  verifyImages release.version (some release.commit) release.images
  let record ← prepare release envText pending
  let record ← backUp paths release record
  let record ← rehearse state release record
  ask (.mkdirp paths.root)
  let staged ← .ofExcept (rewriteEnvImages envText release.rawImages)
  ask (.writeStaging staged)
  checkCandidate release
  let record := { record with phase := .checked }
  ask (.writePending record)
  let liveBefore ← ask .liveHealth
  if liveBefore.serves (some release.version) (some release.commit) then
    convergePinnedEnv release
    completeDeployment state release record
  else
    switchRelease paths state release record

/-- A record of another manifest stops the deployment. -/
def checkPending (release : Release) : Option Pending → Except Err Unit
  | none => .ok ()
  | some record =>
    match record.release with
    | none => raise ["Cannot read properties of undefined (reading 'setDigest')".toList]
    | some pending =>
      if pending.setDigest ≠ some release.setDigest then
        raise ["A deployment of ".toList, shown pending.version,
          " is still pending from a different manifest. Resolve it (or remove deploy/state/pending.json) before deploying ".toList,
          release.version, ".".toList]
      else .ok ()

def deployRelease (paths : Paths) (release : Release) : Io Deployed := do
  let state ← readDeployedState
  let record ← readPending
  .ofExcept (checkPending release record)
  match ← .ofExcept (classifyDeployment state release) with
  | .noop =>
    match record with
    | some _ =>
      ask .unlinkPending
      return ⟨release.version, state.current.bind (·.backup),
        (state.current.bind (·.previous)).bind (·.version)⟩
    | none =>
      verifyImages release.version (some release.commit) release.images
      convergePinnedEnv release
      throwNew ["Release ".toList, release.version, " is already the deployed revision.".toList]
  | .stale =>
    throwNew ["Release ".toList, release.version, " is older than the deployed ".toList,
      shown (state.current.bind (·.version)), ". Deploy a newer release or roll back deliberately.".toList]
  | .conflict =>
    throwNew ["Release ".toList, release.version,
      " was already deployed from a different manifest. Artifact identity is immutable; publish a new version instead.".toList]
  | .bootstrap => promote paths state release record
  | .deploy => promote paths state release record

/-! Rolling back. -/

structure RolledBack where
  rolledBack : Text
  fromVersion : Option Text
  deriving DecidableEq

/-- The last entry for the version. -/
def findDeployedIdentity (state : State) (version : Text) : Option Entry :=
  state.history.reverse.find? fun entry =>
    entry.version = some version ∧ entry.action ∈ [Action.deploy, .bootstrap, .rollback]

def recordedImage (images : Option RawImages) (version : Text) (c : Component) : Except Err Image :=
  match images.bind (·.get c) with
  | none =>
    raise ["The deployment record for ".toList, version,
      " predates image attestations and carries no image digests, so the rollback cannot verify provenance. Restore ".toList,
      version, " by hand or roll back only to a revision recorded with image digests.".toList]
  | some value => parseReleaseImage (some value) c.label

def recordedRelease (images : Option RawImages) (version : Text) : Except Err (Images Image) := do
  let api ← recordedImage images version .api
  let account ← recordedImage images version .account
  let admin ← recordedImage images version .admin
  return ⟨api, account, admin⟩

def rolledBackState (state : State) (current : Current) (record : Entry) (time : Text) : State where
  current := some
    { record.toIdentity with
      deployedAt := some time
      previous := some current.asPrevious }
  history := state.history ++
    [{ record.toIdentity with
        action := .rollback
        fromVersion := current.version
        time := some time }]

def rollbackTo (state : State) (current : Current) (target : Text) (record : Entry) : Io RolledBack := do
  let images ← .ofExcept (recordedRelease record.images target)
  verifyImages target record.commit images
  let envText ← ask .readEnv
  let rewritten ← .ofExcept (rewriteEnvImages envText (record.images.getD ⟨none, none, none⟩))
  ask (.writeEnv rewritten)
  let up ← ask .composeUp
  if ¬up.ok then
    throwNew ["The rollback restart failed: ".toList, shown up.error, ". The env file for ".toList,
      target, " is in place; run the compose up manually to converge.".toList]
  else
    let live ← ask .liveHealth
    if ¬live.serves (some target) record.commit then
      throwNew ["The rollback restart did not become healthy for ".toList, target, ": ".toList,
        live.error.getD ("the live API reports ".toList ++ live.version.getD "nothing".toList), ".".toList]
    else
      let time ← ask .now
      ask (.writeDeployed (rolledBackState state current record time))
      return ⟨target, current.version⟩

def rollbackRelease (targetVersion : Option Text) : Io RolledBack := do
  let state ← readDeployedState
  match state.current with
  | none => throwNew ["Nothing is recorded as deployed, so there is nothing to roll back to.".toList]
  | some current =>
    match targetVersion.or (current.previous.bind (·.version)) with
    | none | some [] =>
      throwNew ["No earlier deployment is recorded. The first deployment of this host has no rollback target.".toList]
    | some target =>
      if current.version = some target then
        throwNew [target, " is already serving.".toList]
      else
        match findDeployedIdentity state target with
        | none =>
          throwNew [target, " was never deployed by this tool, so its image references are unknown.".toList]
        | some record => rollbackTo state current target record

end Sesame.Deploy
