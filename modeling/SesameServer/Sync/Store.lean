import SesameServer.Sync.Request

/- The records of the sync service and the in-memory store that keeps them
   (`internal/syncsvc/types.go`, `internal/syncsvc/memstore/memstore.go`).

   A `State` is the store's maps. The functions below are the methods of its
   transaction, under their own names: a reading method gives `Except Err α`, a
   writing one `Except Err State`. Rows of one vault share a map with those of
   every other vault, under a key made of the vault's id and the row's own. -/
namespace Sesame.Syncsvc
open Syncproto

/-! Time, in nanoseconds since 1970. -/

abbrev Time := Int

def second : Time := 1000000000

def minute : Time := 60 * second

/-- `Time.Unix`: whole seconds, rounded down. -/
def unixSeconds (t : Time) : Int := t / second

inductive DeviceState where
  | pending | approved | revoked
  deriving DecidableEq

inductive PairingState where
  | offered | answered | confirmed
  deriving DecidableEq

def maxPairingMessageBytes : Nat := 512
def pairingLifetime : Time := 10 * minute
def maxPendingPairings : Nat := 3
def maxHeadersPerPage : Nat := 500
def maxEntriesPerPage : Nat := 500

structure Caller where
  ownerKey : Bytes
  tokenDeviceID : Bytes
  token : Bytes
  deriving DecidableEq

structure Vault where
  id : Bytes
  ownerKey : Bytes
  currentRevision : Nat := 0
  headIndex : Nat
  epoch : Nat
  createdAt : Time
  updatedAt : Time
  deriving DecidableEq

structure Device where
  vaultID : Bytes
  deviceID : Bytes
  tokenDeviceID : Bytes
  signingKey : Bytes
  packageKey : Bytes
  state : DeviceState
  addedIndex : Nat := 0
  activatedEpoch : Nat := 0
  createdAt : Time := 0
  deriving DecidableEq

structure Pairing where
  vaultID : Bytes
  deviceID : Bytes
  tokenDeviceID : Bytes
  signingKey : Bytes
  packageKey : Bytes
  offer : Bytes
  answer : Bytes := []
  confirm : Bytes := []
  state : PairingState
  expiresAt : Time
  createdAt : Time
  deriving DecidableEq

structure KeyPackage extends KeyPackageV3 where
  createdAt : Time
  deriving DecidableEq

structure StoredHeader where
  header : Header
  digest : Bytes
  receipt : Bytes
  acceptedAt : Time
  deriving DecidableEq

structure StoredCheckpoint extends Checkpoint where
  acceptedAt : Time
  deriving DecidableEq

structure SignedRequest where
  method : Bytes
  target : Bytes
  body : Bytes
  timestamp : Nat
  nonce : Bytes
  signature : Bytes
  deriving DecidableEq

structure State where
  vaults : Table Bytes Vault
  devices : Table Bytes Device
  entries : Table Bytes (List DeviceListEntry)
  packages : Table Bytes KeyPackage
  headers : Table Bytes (Table Nat StoredHeader)
  ciphertexts : Table Bytes (Table Nat Bytes)
  pairings : Table Bytes Pairing
  checkpoints : Table Bytes StoredCheckpoint
  nonces : Table Bytes Time

def newState : State := ⟨∅, ∅, ∅, ∅, ∅, ∅, ∅, ∅, ∅⟩

/-- `key`: every part followed by a zero byte. -/
def key (parts : List Bytes) : Bytes := parts.flatMap (· ++ [0])

namespace State

variable (s : State)

/-! Vaults. -/

def vaultByOwner (ownerKey : Bytes) : Except Err Vault :=
  match s.vaults.values.find? (fun vault => vault.ownerKey = ownerKey) with
  | some vault => .ok vault
  | none => .error (.is .notFound)

def insertVault (vault : Vault) : Except Err State :=
  if (s.vaults.lookup vault.id).isSome then .error (.is .conflict)
  else match s.vaultByOwner vault.ownerKey with
    | .ok _ => .error (.is .conflict)
    | .error _ => .ok { s with vaults := s.vaults.insert vault.id vault }

def updateVault (vault : Vault) : Except Err State :=
  if (s.vaults.lookup vault.id).isSome then
    .ok { s with vaults := s.vaults.insert vault.id vault }
  else .error (.is .notFound)

def deleteVault (vaultID : Bytes) : State :=
  { s with
    vaults := s.vaults.erase vaultID
    entries := s.entries.erase vaultID
    headers := s.headers.erase vaultID
    ciphertexts := s.ciphertexts.erase vaultID
    devices := s.devices.deleteWhere fun _ device => device.vaultID = vaultID
    packages := s.packages.deleteWhere fun _ pkg => pkg.vaultID = vaultID
    pairings := s.pairings.deleteWhere fun _ pairing => pairing.vaultID = vaultID
    checkpoints := s.checkpoints.deleteWhere fun _ checkpoint => checkpoint.vaultID = vaultID }

/-! Devices. -/

/-- `Devices`: the vault's rows by added index. -/
def devicesOf (vaultID : Bytes) : List Device :=
  (s.devices.values.filter (fun device => device.vaultID = vaultID)).insertionSort
    (fun a b => a.addedIndex ≤ b.addedIndex)

/-- One round of the loop of `DeviceByToken`. A row without a device id counts
    as nothing found yet. -/
def betterDevice (vaultID tokenDeviceID : Bytes) (found : Option Device) (device : Device) :
    Option Device :=
  if device.vaultID ≠ vaultID ∨ device.tokenDeviceID ≠ tokenDeviceID then found
  else match found with
    | none => some device
    | some best =>
      if best.deviceID = [] ∨ (best.state = .revoked ∧ device.state ≠ .revoked) ∨
        (best.state = device.state ∧ best.addedIndex < device.addedIndex) then some device
      else some best

def deviceByToken (vaultID tokenDeviceID : Bytes) : Except Err Device :=
  match s.devices.values.foldl (betterDevice vaultID tokenDeviceID) none with
  | none => .error (.is .notFound)
  | some found => if found.deviceID = [] then .error (.is .notFound) else .ok found

def device (vaultID deviceID : Bytes) : Except Err Device :=
  match s.devices.lookup (key [vaultID, deviceID]) with
  | some device => .ok device
  | none => .error (.is .notFound)

/-- Whether another device of the vault that is not revoked has the token. -/
def tokenTaken (device : Device) : Bool :=
  s.devices.values.any fun existing =>
    existing.vaultID = device.vaultID ∧ existing.tokenDeviceID = device.tokenDeviceID ∧
      existing.deviceID ≠ device.deviceID ∧ existing.state ≠ .revoked

def putDevice (device : Device) : Except Err State :=
  if device.state ≠ .revoked ∧ s.tokenTaken device then .error (.is .conflict)
  else .ok { s with devices := s.devices.insert (key [device.vaultID, device.deviceID]) device }

/-! The device list. -/

def entriesOf (vaultID : Bytes) : List DeviceListEntry := s.entries.getD vaultID []

def appendDeviceListEntry (entry : DeviceListEntry) : Except Err State :=
  if ((s.entriesOf entry.vaultID).length + 1) % 2 ^ 64 ≠ entry.index then .error (.is .conflict)
  else .ok { s with entries := s.entries.insert entry.vaultID (s.entriesOf entry.vaultID ++ [entry]) }

/-! Key packages. -/

def putKeyPackage (pkg : KeyPackage) : State :=
  { s with packages := s.packages.insert (key [pkg.vaultID, pkg.recipientDeviceID]) pkg }

def keyPackage (vaultID recipientDeviceID : Bytes) : Except Err KeyPackage :=
  match s.packages.lookup (key [vaultID, recipientDeviceID]) with
  | some pkg => .ok pkg
  | none => .error (.is .notFound)

def deleteKeyPackages (vaultID : Bytes) : State :=
  { s with packages := s.packages.deleteWhere fun _ pkg => pkg.vaultID = vaultID }

/-! Headers. -/

def headersOf (vaultID : Bytes) : Table Nat StoredHeader := s.headers.getD vaultID ∅

def insertHeader (stored : StoredHeader) : Except Err State :=
  let byRevision := s.headersOf stored.header.vaultID
  if (byRevision.lookup stored.header.revision).isSome then .error (.is .conflict)
  else .ok { s with
    headers := s.headers.insert stored.header.vaultID
      (byRevision.insert stored.header.revision stored) }

def header (vaultID : Bytes) (revision : Nat) : Except Err StoredHeader :=
  match (s.headersOf vaultID).lookup revision with
  | some stored => .ok stored
  | none => .error (.is .notFound)

/-- One round of the loop of `LatestHeader`. -/
def laterHeader (latest : Option StoredHeader) (stored : StoredHeader) : Option StoredHeader :=
  match latest with
  | none => some stored
  | some best => if best.header.revision < stored.header.revision then some stored else some best

def latestHeader (vaultID : Bytes) : Except Err StoredHeader :=
  match (s.headersOf vaultID).values.foldl laterHeader none with
  | some stored => .ok stored
  | none => .error (.is .notFound)

/-- Deleting from a vault's own map of rows, if it has one. -/
def pruneHeaders (vaultID : Bytes) (keepFrom : Nat) : State :=
  match s.headers.lookup vaultID with
  | none => s
  | some byRevision =>
    { s with
      headers := s.headers.insert vaultID
        (byRevision.deleteWhere fun revision _ => revision < keepFrom) }

/-! Ciphertexts. -/

def ciphertextsOf (vaultID : Bytes) : Table Nat Bytes := s.ciphertexts.getD vaultID ∅

def putCiphertext (vaultID : Bytes) (revision : Nat) (ciphertext : Bytes) : State :=
  { s with
    ciphertexts := s.ciphertexts.insert vaultID
      ((s.ciphertextsOf vaultID).insert revision ciphertext) }

def ciphertext (vaultID : Bytes) (revision : Nat) : Except Err Bytes :=
  match (s.ciphertextsOf vaultID).lookup revision with
  | some ciphertext => .ok ciphertext
  | none => .error (.is .notFound)

def ciphertextBytes (vaultID : Bytes) : Nat :=
  ((s.ciphertextsOf vaultID).values.map List.length).sum

/-- One round of the loop of `OldestCiphertext`. -/
def olderCiphertext (oldest : Option (Nat × Nat)) (row : Sigma fun _ : Nat => Bytes) :
    Option (Nat × Nat) :=
  match oldest with
  | none => some (row.1, row.2.length)
  | some (revision, size) =>
    if row.1 < revision then some (row.1, row.2.length) else some (revision, size)

def oldestCiphertext (vaultID : Bytes) : Except Err (Nat × Nat) :=
  match (s.ciphertextsOf vaultID).entries.foldl olderCiphertext none with
  | some oldest => .ok oldest
  | none => .error (.is .notFound)

def deleteCiphertext (vaultID : Bytes) (revision : Nat) : State :=
  match s.ciphertexts.lookup vaultID with
  | none => s
  | some byRevision =>
    { s with ciphertexts := s.ciphertexts.insert vaultID (byRevision.erase revision) }

def deleteCiphertextsBefore (vaultID : Bytes) (revision : Nat) : State :=
  match s.ciphertexts.lookup vaultID with
  | none => s
  | some byRevision =>
    { s with
      ciphertexts := s.ciphertexts.insert vaultID
        (byRevision.deleteWhere fun existing _ => existing < revision) }

/-! Checkpoints. -/

def putCheckpoint (checkpoint : StoredCheckpoint) : State :=
  { s with checkpoints :=
      s.checkpoints.insert (key [checkpoint.vaultID, checkpoint.deviceID]) checkpoint }

def checkpoint (vaultID deviceID : Bytes) : Except Err StoredCheckpoint :=
  match s.checkpoints.lookup (key [vaultID, deviceID]) with
  | some checkpoint => .ok checkpoint
  | none => .error (.is .notFound)

def deleteCheckpoint (vaultID deviceID : Bytes) : State :=
  { s with checkpoints := s.checkpoints.erase (key [vaultID, deviceID]) }

/-! Pairings. -/

def putPairing (pairing : Pairing) : State :=
  { s with pairings := s.pairings.insert (key [pairing.vaultID, pairing.deviceID]) pairing }

def pairing (vaultID deviceID : Bytes) : Except Err Pairing :=
  match s.pairings.lookup (key [vaultID, deviceID]) with
  | some pairing => .ok pairing
  | none => .error (.is .notFound)

def pairingByToken (vaultID tokenDeviceID : Bytes) : Except Err Pairing :=
  match s.pairings.values.find? (fun pairing =>
    pairing.vaultID = vaultID ∧ pairing.tokenDeviceID = tokenDeviceID) with
  | some pairing => .ok pairing
  | none => .error (.is .notFound)

/-- `Pairings`: the vault's rows by time of creation. -/
def pairingsOf (vaultID : Bytes) : List Pairing :=
  (s.pairings.values.filter (fun pairing => pairing.vaultID = vaultID)).insertionSort
    (fun a b => a.createdAt ≤ b.createdAt)

def deletePairing (vaultID deviceID : Bytes) : State :=
  { s with pairings := s.pairings.erase (key [vaultID, deviceID]) }

/-! Nonces and expiry. -/

/-- `RecordNonce`: whether the nonce was fresh, and the store afterwards. -/
def recordNonce (scope nonce : Bytes) (now expiresAt : Time) : Bool × State :=
  let record := (true, { s with nonces := s.nonces.insert (key [scope, nonce]) expiresAt })
  match s.nonces.lookup (key [scope, nonce]) with
  | none => record
  | some until_ => if now < until_ then (false, s) else record

def purgeExpired (now : Time) : State :=
  { s with
    nonces := s.nonces.deleteWhere fun _ until_ => ¬now < until_
    pairings := s.pairings.deleteWhere fun _ pairing => ¬now < pairing.expiresAt }

end State

/-! Keys. -/

/-- Rows of vaults whose ids hold no zero byte never share a key by accident. -/
theorem key_inj {v w d e : Bytes} (hv : (0 : UInt8) ∉ v) (hw : (0 : UInt8) ∉ w)
    (h : key [v, d] = key [w, e]) : v = w ∧ d = e := by
  simp only [key, List.flatMap_cons, List.flatMap_nil, List.append_nil, List.append_assoc,
    List.singleton_append] at h
  obtain ⟨rfl, htail⟩ := Encoding.append_sep_inj hv hw h
  exact ⟨rfl, List.append_cancel_right htail⟩

end Sesame.Syncsvc
