import SesameServer.Sync.Loops

/- The reading operations of the sync service (`internal/syncsvc/service.go`) and the
   methods of the store that only they use.

   A view runs in a transaction of its own that is never committed. All of them ask
   who acts first; `view_actor` says whom each of them answers: `needsApproval` for
   the views of members only, and the device list for a confirmed pairing as well. -/
namespace Sesame.Syncsvc
open Syncproto Outcome

namespace State

variable (s : State)

/-- `DeviceListEntries`. -/
def deviceListEntries (vaultID : Bytes) (after limit : Nat) : List DeviceListEntry :=
  pageAfter (s.entriesOf vaultID) after limit

/-- `Headers`: the vault's headers above `after`, by revision. -/
def headersAfter (vaultID : Bytes) (after limit : Nat) : List StoredHeader :=
  ((((s.headersOf vaultID).keys.filter (after < ·)).insertionSort (· ≤ ·)).take limit).filterMap
    (s.headersOf vaultID).lookup

/-- `Checkpoints`: the vault's rows by device id. -/
def checkpointsOf (vaultID : Bytes) : List StoredCheckpoint :=
  (s.checkpoints.values.filter (fun checkpoint => checkpoint.vaultID = vaultID)).insertionSort
    (fun a b => List.lex b.deviceID a.deviceID (· < ·) = false)

end State

/-- `clamp`: a limit that is not positive or too high counts as the highest. -/
def clamp (limit : Int) (maximum : Nat) : Nat :=
  if limit ≤ 0 ∨ maximum < limit then maximum else limit.toNat

namespace Service

variable (svc : Service)

def pairingStatus (caller : Caller) : TxM Pairing := do
  let actor ← svc.actorFor caller
  match actor.pairing with
  | none => throw (.is .forbidden)
  | some pairing => pure pairing

def pendingPairings (caller : Caller) : TxM (List Pairing) := do
  let actor ← svc.actorFor caller
  lift (requireApproved actor)
  let pairings ← query (fun s => .ok (s.pairingsOf actor.vault.id))
  let now ← svc.now
  pure (pairings.filter fun pairing => now < pairing.expiresAt)

def keyPackage (caller : Caller) : TxM KeyPackage := do
  let actor ← svc.actorFor caller
  lift (requireApproved actor)
  query (·.keyPackage actor.vault.id actor.device.deviceID)

def checkpoints (caller : Caller) : TxM (List StoredCheckpoint) := do
  let actor ← svc.actorFor caller
  lift (requireApproved actor)
  query (fun s => .ok (s.checkpointsOf actor.vault.id))

def deviceList (caller : Caller) (after : Nat) (limit : Int) : TxM (List DeviceListEntry) := do
  let actor ← svc.actorFor caller
  refuse (actor.pairing = none ∧ actor.device.state ≠ .approved) (.is .forbidden)
  refuse (∃ pairing ∈ actor.pairing, pairing.state ≠ .confirmed) (.is .forbidden)
  query (fun s => .ok (s.deviceListEntries actor.vault.id after (clamp limit maxEntriesPerPage)))

def headers (caller : Caller) (after : Nat) (limit : Int) : TxM (List StoredHeader) := do
  let actor ← svc.actorFor caller
  lift (requireApproved actor)
  query (fun s => .ok (s.headersAfter actor.vault.id after (clamp limit maxHeadersPerPage)))

def devices (caller : Caller) : TxM (Vault × List Device) := do
  let actor ← svc.actorFor caller
  refuse (actor.pairing ≠ none) (.is .forbidden)
  let devices ← query (fun s => .ok (s.devicesOf actor.vault.id))
  pure (actor.vault, devices)

def vaultState (caller : Caller) : TxM (Vault × Actor) := do
  let actor ← svc.actorFor caller
  pure (actor.vault, actor)

end Service

/-! Views as data. -/

inductive View where
  | snapshot
  | headers (after : Nat) (limit : Int)
  | keyPackage
  | checkpoints
  | pendingPairings
  | deviceList (after : Nat) (limit : Int)
  | pairingStatus
  | devices
  | vaultState
  deriving DecidableEq

def Service.view (svc : Service) (caller : Caller) : View → TxM Unit
  | .snapshot => do let _ ← svc.snapshot caller
  | .headers after limit => do let _ ← svc.headers caller after limit
  | .keyPackage => do let _ ← svc.keyPackage caller
  | .checkpoints => do let _ ← svc.checkpoints caller
  | .pendingPairings => do let _ ← svc.pendingPairings caller
  | .deviceList after limit => do let _ ← svc.deviceList caller after limit
  | .pairingStatus => do let _ ← svc.pairingStatus caller
  | .devices => do let _ ← svc.devices caller
  | .vaultState => do let _ ← svc.vaultState caller

/-- The views that answer approved devices only. -/
def View.needsApproval : View → Bool
  | .snapshot | .headers _ _ | .keyPackage | .checkpoints | .pendingPairings => true
  | .deviceList _ _ | .pairingStatus | .devices | .vaultState => false

/-- The actor a view answers. -/
def View.answers : View → Actor → Prop
  | .deviceList _ _, actor =>
    (actor.pairing = none → actor.device.state = .approved) ∧
      ∀ pairing, actor.pairing = some pairing → pairing.state = .confirmed
  | .pairingStatus, actor => actor.pairing ≠ none
  | .devices, actor => actor.pairing = none
  | .vaultState, _ => True
  | _, actor => requireApproved actor = .ok ()

/-- **Whom a view answers.** -/
theorem view_actor {svc : Service} {caller : Caller} {view : View} {tx tx' : Tx} {u : Unit}
    (h : svc.view caller view tx = .ok u tx') :
    ∃ actor tx₁, svc.actorFor caller tx = .ok actor tx₁ ∧ view.answers actor := by
  cases view with
  | snapshot | headers | keyPackage | checkpoints | pendingPairings =>
    obtain ⟨_, _, h, _⟩ := bind_ok.mp h
    obtain ⟨actor, tx₁, hactor, h⟩ := bind_ok.mp h
    obtain ⟨_, _, happroved, _⟩ := bind_ok.mp h
    exact ⟨actor, tx₁, hactor, (lift_ok.mp happroved).1⟩
  | deviceList =>
    obtain ⟨_, _, h, _⟩ := bind_ok.mp h
    simp only [Service.deviceList, bind_ok, refuse_ok] at h
    obtain ⟨actor, tx₁, hactor, _, _, ⟨hdevice, rfl⟩, _, _, ⟨hpairing, rfl⟩, _⟩ := h
    refine ⟨actor, tx₁, hactor, fun hn => ?_, fun p hp => ?_⟩
    · by_contra hstate
      exact hdevice ⟨hn, hstate⟩
    · by_contra hstate
      exact hpairing ⟨p, hp, hstate⟩
  | pairingStatus =>
    obtain ⟨_, _, h, _⟩ := bind_ok.mp h
    obtain ⟨actor, tx₁, hactor, h⟩ := bind_ok.mp h
    refine ⟨actor, tx₁, hactor, fun hn => ?_⟩
    rw [hn] at h
    exact (throw_ok.mp h).elim
  | devices =>
    obtain ⟨_, _, h, _⟩ := bind_ok.mp h
    obtain ⟨actor, tx₁, hactor, h⟩ := bind_ok.mp h
    obtain ⟨_, _, hrefuse, _⟩ := bind_ok.mp h
    exact ⟨actor, tx₁, hactor, not_not.mp (refuse_ok.mp hrefuse).1⟩
  | vaultState =>
    obtain ⟨_, _, h, _⟩ := bind_ok.mp h
    obtain ⟨actor, tx₁, hactor, _⟩ := bind_ok.mp h
    exact ⟨actor, tx₁, hactor, trivial⟩

end Sesame.Syncsvc
