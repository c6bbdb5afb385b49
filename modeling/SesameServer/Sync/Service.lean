import SesameServer.Sync.Store

/- The operations of the sync service (`internal/syncsvc/service.go`) and the
   wrapper that keeps a failed request's nonce spent (`nonce_keeper.go`).

   An operation is a program over one transaction (`Tx`): the working copy of the
   store, how often the clock has been read, and the nonce this transaction has
   recorded. The clock is the sequence of its readings, and each `s.now()` of the
   source takes the next one, so two readings of one operation may differ.

   `transact` runs an operation as `Store.Update` does, dropping the working copy
   on an error; `perform` adds the second transaction of `nonceKeeper.Update`. -/
namespace Sesame.Syncsvc
open Syncproto Outcome

/-! Transactions. -/

structure SpentNonce where
  scope : Bytes
  nonce : Bytes
  now : Time
  expires : Time
  deriving DecidableEq

structure Tx where
  data : State
  ticks : Nat
  spent : Option SpentNonce

abbrev TxM := EStateM Err Tx

/-- A reading method of the transaction. -/
def query {α : Type} (f : State → Except Err α) : TxM α := do
  let tx ← get
  lift (f tx.data)

/-- A reading method where `ErrNotFound` is an answer and not a failure. -/
def find {α : Type} (f : State → Except Err α) : TxM (Option α) := do
  let tx ← get
  match f tx.data with
  | .ok a => pure (some a)
  | .error e => if e.has .notFound then pure none else throw e

/-- A writing method that can fail. -/
def update (f : State → Except Err State) : TxM Unit := do
  let tx ← get
  let data ← lift (f tx.data)
  set { tx with data := data }

def write (f : State → State) : TxM Unit :=
  modify fun tx => { tx with data := f tx.data }

/-- A check whose error is wrapped: `fmt.Errorf("%w: %w", ErrInvalid, err)`. -/
def orInvalid {α : Type} : Except Err α → Except Err α
  | .ok a => .ok a
  | .error e => .error (.wrap .invalid e)

/-! The service. -/

structure Config where
  receiptKey : Bytes
  clock : Nat → Time
  byteBudget : Int
  headerRetention : Nat

def defaultByteBudget : Nat := 128 * 1024 * 1024

/-- `ed25519.PrivateKeySize`. -/
def privateKeySize : Nat := 64

/-- A service that `New` returned: its budget and retention are never zero. -/
structure Service where
  crypto : Crypto
  receiptKey : Bytes
  clock : Nat → Time
  byteBudget : Nat
  headerRetention : Nat
  receiptKey_size : receiptKey.length = privateKeySize
  byteBudget_pos : 0 < byteBudget
  headerRetention_pos : 0 < headerRetention

def Service.new (crypto : Crypto) (config : Config) : Except Err Service :=
  if h : config.receiptKey.length = privateKeySize then
    .ok {
      crypto := crypto
      receiptKey := config.receiptKey
      clock := config.clock
      byteBudget := if config.byteBudget ≤ 0 then defaultByteBudget else config.byteBudget.toNat
      headerRetention :=
        if config.headerRetention = 0 then maxHeaderRetention else config.headerRetention
      receiptKey_size := h
      byteBudget_pos := by
        split
        · decide
        · omega
      headerRetention_pos := by
        split
        · decide
        · omega }
  else .error (.plain "syncsvc: the receipt key is required")

structure Actor where
  vault : Vault
  device : Device
  pairing : Option Pairing
  deriving DecidableEq

/-- `loadList`: the stored entries, read page by page and verified. -/
def loadList (crypto : Crypto) (s : State) (vaultID : Bytes) : Except Err DeviceList :=
  loadPages crypto (s.entriesOf vaultID) maxEntriesPerPage ((s.entriesOf vaultID).length + 1) 0
    newDeviceList

/-- `list.Extend(entry)` on a loaded list, its error wrapped. -/
def extendList (crypto : Crypto) (list : DeviceList) (entry : DeviceListEntry) :
    Except Err DeviceList :=
  match DeviceList.extend crypto entry list with
  | .ok _ list' => .ok list'
  | .error e _ => .error (.wrap .invalid e)

/-- The caller a request without owner, token or device of the token has. -/
def Caller.incomplete (caller : Caller) : Prop :=
  caller.ownerKey = [] ∨ caller.tokenDeviceID = [] ∨ caller.token = []

instance (caller : Caller) : Decidable caller.incomplete :=
  inferInstanceAs (Decidable (_ ∨ _ ∨ _))

def ownerScope (ownerKey : Bytes) : Bytes := utf8 "owner/" ++ ownerKey

def deviceScope (vaultID deviceID : Bytes) : Bytes := vaultID ++ utf8 "/" ++ deviceID

/-- The pending device a pairing acts as. -/
def pendingDevice (vault : Vault) (pairing : Pairing) : Device :=
  { vaultID := vault.id, deviceID := pairing.deviceID, tokenDeviceID := pairing.tokenDeviceID,
    signingKey := pairing.signingKey, packageKey := pairing.packageKey, state := .pending }

def requireApproved (actor : Actor) : Except Err Unit :=
  check (actor.pairing ≠ none ∨ actor.device.state ≠ .approved) (.is .forbidden)

def requireActivated (actor : Actor) : Except Err Unit := do
  requireApproved actor
  check (actor.device.activatedEpoch ≠ actor.vault.epoch) (.is .notActivated)

def badMessage (message : Bytes) : Prop :=
  message.length = 0 ∨ maxPairingMessageBytes < message.length

instance (message : Bytes) : Decidable (badMessage message) := inferInstanceAs (Decidable (_ ∨ _))

structure PairingOffer where
  deviceID : Bytes
  signingKey : Bytes
  packageKey : Bytes
  message : Bytes
  deriving DecidableEq

/-- `make([]byte, n)`, encoded. -/
def zeros (n : Nat) : Bytes := Encoding.encode (List.replicate n 0)

/-- The entry `BeginPairing` validates in place of one it does not have yet. -/
def pairingProbe (vault : Vault) (offer : PairingOffer) : DeviceListEntry :=
  { vaultID := vault.id, index := 2, previousDigest := zeros digestBytes,
    kind := EntryKind.add.text, signerDeviceID := offer.deviceID,
    subjectDeviceID := offer.deviceID, subjectSigningKey := offer.signingKey,
    subjectPackageKey := offer.packageKey, sealedLabel := zeros minSealedLabelBytes,
    epochAfter := vault.epoch, snapshotFloor := 0, signature := zeros ed25519SignatureBytes }

structure Accepted where
  stored : StoredHeader
  vault : Vault
  receipt : Bytes

structure Snapshot where
  header : StoredHeader
  ciphertext : Bytes
  vault : Vault

namespace Service

variable (svc : Service)

def now : TxM Time := do
  let tx ← get
  set { tx with ticks := tx.ticks + 1 }
  pure (svc.clock tx.ticks)

/-- `unix`: a time before 1970 counts as 0. -/
def unix : TxM Nat := do
  let t ← svc.now
  pure (unixSeconds t).toNat

def vaultOf (ownerKey : Bytes) : TxM Vault := do
  match ← find (·.vaultByOwner ownerKey) with
  | some vault => pure vault
  | none => throw (.is .noVault)

/-- `actorFor` once no device that is not revoked has the token. -/
def pairingActor (vault : Vault) (revoked : Option Device) (caller : Caller) : TxM Actor := do
  match ← find (·.pairingByToken vault.id caller.tokenDeviceID) with
  | none =>
    match revoked with
    | some device => pure ⟨vault, device, none⟩
    | none => throw (.is .forbidden)
  | some pairing =>
    let now ← svc.now
    refuse (¬now < pairing.expiresAt) (.is .forbidden)
    pure ⟨vault, pendingDevice vault pairing, some pairing⟩

def actorFor (caller : Caller) : TxM Actor := do
  refuse caller.incomplete (.is .forbidden)
  let vault ← vaultOf caller.ownerKey
  match ← find (·.deviceByToken vault.id caller.tokenDeviceID) with
  | none => svc.pairingActor vault none caller
  | some device =>
    if device.state ≠ .revoked then pure ⟨vault, device, none⟩
    else svc.pairingActor vault (some device) caller

/-- `nonceTx.RecordNonce`: a fresh nonce is remembered for the recovery. -/
def recordNonce (scope nonce : Bytes) (now expires : Time) : TxM Bool := do
  let tx ← get
  let (fresh, data) := tx.data.recordNonce scope nonce now expires
  set { tx with
    data := data
    spent := if fresh then some ⟨scope, nonce, now, expires⟩ else tx.spent }
  pure fresh

def verifyRequest (scope signingKey : Bytes) (caller : Caller) (request : SignedRequest) :
    TxM Unit := do
  let signed : RequestSignature :=
    ⟨request.method, request.target, request.body, caller.token, request.timestamp, request.nonce⟩
  let unix ← svc.unix
  refuse (failed (signed.verify svc.crypto signingKey request.signature unix) = true)
    (.is .signature)
  let base ← svc.now
  let expires := base + requestNonceRetention * second
  let now ← svc.now
  let fresh ← recordNonce scope request.nonce now expires
  refuse (fresh = false) (.is .replay)

def signedActor (caller : Caller) (request : SignedRequest) : TxM Actor := do
  let actor ← svc.actorFor caller
  svc.verifyRequest (deviceScope actor.vault.id actor.device.deviceID) actor.device.signingKey
    caller request
  pure actor

/-! Creating a vault and pairing. -/

def createVault (caller : Caller) (request : SignedRequest) (entry : DeviceListEntry) :
    TxM Vault := do
  refuse caller.incomplete (.is .forbidden)
  let existing ← find (·.vaultByOwner caller.ownerKey)
  refuse (existing ≠ none) (.is .vaultExists)
  let list ← lift (orInvalid (verifyDeviceList svc.crypto [entry]))
  svc.verifyRequest (ownerScope caller.ownerKey) entry.subjectSigningKey caller request
  let now ← svc.now
  let vault : Vault :=
    { id := entry.vaultID, ownerKey := caller.ownerKey, epoch := list.epoch, headIndex := 1,
      createdAt := now, updatedAt := now }
  update (·.insertVault vault)
  update (·.appendDeviceListEntry entry)
  update (·.putDevice
    { vaultID := vault.id, deviceID := entry.subjectDeviceID,
      tokenDeviceID := caller.tokenDeviceID, signingKey := entry.subjectSigningKey,
      packageKey := entry.subjectPackageKey, state := .approved, addedIndex := 1,
      activatedEpoch := vault.epoch, createdAt := now })
  pure vault

def beginPairing (caller : Caller) (request : SignedRequest) (offer : PairingOffer) :
    TxM Unit := do
  refuse caller.incomplete (.is .forbidden)
  let vault ← vaultOf caller.ownerKey
  refuse (badMessage offer.message) (.is .invalid)
  lift (orInvalid (pairingProbe vault offer).validate)
  svc.verifyRequest (ownerScope caller.ownerKey) offer.signingKey caller request
  let existing ← find (·.deviceByToken vault.id caller.tokenDeviceID)
  refuse (∃ device ∈ existing, device.state ≠ .revoked) (.is .forbidden)
  let used ← find (·.device vault.id offer.deviceID)
  refuse (used ≠ none) (.is .conflict)
  let previous ← find (·.pairingByToken vault.id caller.tokenDeviceID)
  forSome previous fun previous => write (·.deletePairing vault.id previous.deviceID)
  let purged ← svc.now
  write (·.purgeExpired purged)
  let pairings ← query (fun s => .ok (s.pairingsOf vault.id))
  refuse (maxPendingPairings ≤ pairings.length) (.is .quota)
  let now ← svc.now
  write (·.putPairing
    { vaultID := vault.id, deviceID := offer.deviceID, tokenDeviceID := caller.tokenDeviceID,
      signingKey := offer.signingKey, packageKey := offer.packageKey, offer := offer.message,
      state := .offered, expiresAt := now + pairingLifetime, createdAt := now })

/-- `pairing.State != want || !s.now().Before(pairing.ExpiresAt)`: the clock is
    read only if the state is the wanted one. -/
def requirePairing (pairing : Pairing) (want : PairingState) : TxM Unit := do
  refuse (pairing.state ≠ want) (.is .conflict)
  let now ← svc.now
  refuse (¬now < pairing.expiresAt) (.is .conflict)

def answerPairing (caller : Caller) (request : SignedRequest) (deviceID message : Bytes) :
    TxM Unit := do
  let actor ← svc.signedActor caller request
  lift (requireActivated actor)
  refuse (badMessage message) (.is .invalid)
  let pairing ← query (·.pairing actor.vault.id deviceID)
  svc.requirePairing pairing .offered
  write (·.putPairing { pairing with answer := message, state := .answered })

def confirmPairing (caller : Caller) (request : SignedRequest) (message : Bytes) : TxM Unit := do
  let actor ← svc.signedActor caller request
  match actor.pairing with
  | none => throw (.is .forbidden)
  | some pairing =>
    refuse (badMessage message) (.is .invalid)
    refuse (pairing.state ≠ .answered) (.is .conflict)
    write (·.putPairing { pairing with confirm := message, state := .confirmed })

def cancelPairing (caller : Caller) (request : SignedRequest) (deviceID : Bytes) : TxM Unit := do
  let actor ← svc.signedActor caller request
  match actor.pairing with
  | some pairing => write (·.deletePairing actor.vault.id pairing.deviceID)
  | none =>
    lift (requireApproved actor)
    write (·.deletePairing actor.vault.id deviceID)

/-! Changing the device list. -/

/-- The check that an entry is of the kind asked for, by the actor and for its vault. -/
def foreignEntry (actor : Actor) (kind : EntryKind) (entry : DeviceListEntry) : Prop :=
  entry.kind ≠ kind.text ∨ entry.signerDeviceID ≠ actor.device.deviceID ∨
    entry.vaultID ≠ actor.vault.id

instance (actor : Actor) (kind : EntryKind) (entry : DeviceListEntry) :
    Decidable (foreignEntry actor kind entry) := inferInstanceAs (Decidable (_ ∨ _ ∨ _))

/-- `entry.Index != actor.Vault.HeadIndex+1`, in 64 bits. -/
def staleEntry (actor : Actor) (entry : DeviceListEntry) : Prop :=
  entry.index ≠ (actor.vault.headIndex + 1) % 2 ^ 64

instance (actor : Actor) (entry : DeviceListEntry) : Decidable (staleEntry actor entry) :=
  inferInstanceAs (Decidable (_ ≠ _))

/-- The stored list extended by `entry`. -/
def extendStored (vaultID : Bytes) (entry : DeviceListEntry) : TxM DeviceList := do
  let list ← query (loadList svc.crypto · vaultID)
  lift (extendList svc.crypto list entry)

def approve (caller : Caller) (request : SignedRequest) (entry : DeviceListEntry)
    (pkg : KeyPackageV3) : TxM Unit := do
  let actor ← svc.signedActor caller request
  lift (requireActivated actor)
  refuse (foreignEntry actor .add entry) (.is .forbidden)
  let pairing ← query (·.pairing actor.vault.id entry.subjectDeviceID)
  svc.requirePairing pairing .confirmed
  refuse (pairing.signingKey ≠ entry.subjectSigningKey ∨
    pairing.packageKey ≠ entry.subjectPackageKey) (.is .forbidden)
  refuse (staleEntry actor entry) (.is .conflict)
  let _ ← svc.extendStored actor.vault.id entry
  refuse (pkg.vaultID ≠ actor.vault.id ∨ pkg.senderDeviceID ≠ actor.device.deviceID ∨
    pkg.recipientDeviceID ≠ entry.subjectDeviceID ∨ pkg.vaultEpoch ≠ actor.vault.epoch ∨
    pkg.entryDigest ≠ entry.digest svc.crypto) (.is .invalid)
  lift (orInvalid (pkg.verify svc.crypto actor.device.signingKey))
  let now ← svc.now
  update (·.appendDeviceListEntry entry)
  update (·.putDevice
    { vaultID := actor.vault.id, deviceID := entry.subjectDeviceID,
      tokenDeviceID := pairing.tokenDeviceID, signingKey := entry.subjectSigningKey,
      packageKey := entry.subjectPackageKey, state := .approved, addedIndex := entry.index,
      createdAt := now })
  write (·.putKeyPackage { pkg with createdAt := now })
  write (·.deletePairing actor.vault.id entry.subjectDeviceID)
  update (·.updateVault { actor.vault with headIndex := entry.index, updatedAt := now })

def activate (caller : Caller) (request : SignedRequest) (packageDigest : Bytes) : TxM Unit := do
  let actor ← svc.signedActor caller request
  lift (requireApproved actor)
  let pkg ← query (·.keyPackage actor.vault.id actor.device.deviceID)
  refuse (pkg.vaultEpoch ≠ actor.vault.epoch ∨
    pkg.toKeyPackageV3.digest svc.crypto ≠ packageDigest) (.is .conflict)
  update (·.putDevice { actor.device with activatedEpoch := actor.vault.epoch })

/-- The survivors `rekey` expects a package for: every current member but the actor. -/
def survivors (actor : Actor) (list : DeviceList) : Finset Bytes :=
  ((list.current.map (·.deviceID)).filter (· ≠ actor.device.deviceID)).toFinset

/-- The loop of `rekey` over the packages. -/
def putPackages (actor : Actor) (entry : DeviceListEntry) (now : Time) :
    List KeyPackageV3 → Finset Bytes → TxM Unit
  | [], _ => pure ()
  | pkg :: rest, expected => do
    refuse (pkg.recipientDeviceID ∉ expected)
      (.detail .invalid "unexpected or repeated recipient")
    refuse (pkg.vaultID ≠ actor.vault.id ∨ pkg.senderDeviceID ≠ actor.device.deviceID ∨
      pkg.vaultEpoch ≠ entry.epochAfter ∨ pkg.entryDigest ≠ entry.digest svc.crypto) (.is .invalid)
    lift (orInvalid (pkg.verify svc.crypto actor.device.signingKey))
    write (·.putKeyPackage { pkg with createdAt := now })
    putPackages actor entry now rest (expected.erase pkg.recipientDeviceID)

/-- What `rekey` makes of a device's row; `none` leaves it alone. -/
def rekeyDevice (actor : Actor) (kind : EntryKind) (entry : DeviceListEntry) (device : Device) :
    Option Device :=
  if kind = .remove ∧ device.deviceID = entry.subjectDeviceID then
    some { device with state := .revoked }
  else if device.deviceID = actor.device.deviceID ∧ device.state = .approved then
    some { device with activatedEpoch := entry.epochAfter }
  else none

/-- The loop of `rekey` over the vault's devices. -/
def rekeyDevices (actor : Actor) (kind : EntryKind) (entry : DeviceListEntry) :
    List Device → TxM Unit
  | [] => pure ()
  | device :: rest => do
    forSome (rekeyDevice actor kind entry device) fun device => update (·.putDevice device)
    rekeyDevices actor kind entry rest

/-- The loop of `rekey` over the vault's pairings. -/
def deletePairings (vaultID : Bytes) : List Pairing → TxM Unit
  | [] => pure ()
  | pairing :: rest => do
    write (·.deletePairing vaultID pairing.deviceID)
    deletePairings vaultID rest

def rekey (caller : Caller) (request : SignedRequest) (kind : EntryKind)
    (entry : DeviceListEntry) (packages : List KeyPackageV3) : TxM Unit := do
  let actor ← svc.signedActor caller request
  lift (requireActivated actor)
  refuse (foreignEntry actor kind entry) (.is .forbidden)
  refuse (staleEntry actor entry) (.is .conflict)
  let list ← svc.extendStored actor.vault.id entry
  let expected := survivors actor list
  refuse (packages.length ≠ expected.card) (.detail .invalid "the survivor set is incomplete")
  let now ← svc.now
  write (·.deleteKeyPackages actor.vault.id)
  svc.putPackages actor entry now packages expected
  update (·.appendDeviceListEntry entry)
  onlyIf (kind = .remove) (write (·.deleteCheckpoint actor.vault.id entry.subjectDeviceID))
  let devices ← query (fun s => .ok (s.devicesOf actor.vault.id))
  rekeyDevices actor kind entry devices
  let pairings ← query (fun s => .ok (s.pairingsOf actor.vault.id))
  deletePairings actor.vault.id pairings
  update (·.updateVault
    { actor.vault with headIndex := entry.index, epoch := entry.epochAfter, updatedAt := now })

def remove (caller : Caller) (request : SignedRequest) (entry : DeviceListEntry)
    (packages : List KeyPackageV3) : TxM Unit := svc.rekey caller request .remove entry packages

def rotate (caller : Caller) (request : SignedRequest) (entry : DeviceListEntry)
    (packages : List KeyPackageV3) : TxM Unit := svc.rekey caller request .rotate entry packages

def upgradeKey (caller : Caller) (request : SignedRequest) (entry : DeviceListEntry) :
    TxM Unit := do
  let actor ← svc.signedActor caller request
  lift (requireActivated actor)
  refuse (foreignEntry actor .key entry) (.is .forbidden)
  refuse (staleEntry actor entry) (.is .conflict)
  let _ ← svc.extendStored actor.vault.id entry
  update (·.appendDeviceListEntry entry)
  update (·.putDevice { actor.device with packageKey := entry.subjectPackageKey })
  let now ← svc.now
  update (·.updateVault { actor.vault with headIndex := entry.index, updatedAt := now })

/-! Snapshots. -/

/-- The loop of `makeRoom`. Each round deletes one ciphertext, so one round more
    than there are ciphertexts always suffices. -/
def makeRoomLoop (vault : Vault) (incoming : Nat) : Nat → Nat → TxM Unit
  | 0, _ => throw (.plain "out of rounds")
  | rounds + 1, stored =>
    if svc.byteBudget < stored + incoming then do
      match ← find (·.oldestCiphertext vault.id) with
      | none => throw (.is .quota)
      | some (revision, size) =>
        refuse (vault.currentRevision ≤ revision) (.is .quota)
        write (·.deleteCiphertext vault.id revision)
        makeRoomLoop vault incoming rounds (stored - size)
    else pure ()

def makeRoom (vault : Vault) (incoming : Nat) : TxM Unit := do
  refuse (svc.byteBudget < incoming) (.is .quota)
  let stored ← query (fun s => .ok (s.ciphertextBytes vault.id))
  let rounds ← query (fun s => .ok ((s.ciphertextsOf vault.id).values.length + 1))
  svc.makeRoomLoop vault incoming rounds stored

/-- The header an upload follows, if the vault has one. -/
def previousHeader (vault : Vault) (header : Header) : TxM (Option Header) := do
  if 0 < vault.currentRevision then
    let latest ← query (·.latestHeader vault.id)
    refuse (header.previousDigest ≠ latest.digest) (.is .conflict)
    pure (some latest.header)
  else pure none

/-- The receipt for a header accepted at `now`. -/
def receiptFor (vault : Vault) (header : Header) (now : Time) : ReceiptV3 :=
  { vaultID := vault.id, revision := header.revision, headerDigest := header.digest svc.crypto,
    vaultEpoch := header.vaultEpoch, acceptedAt := toUint64 (unixSeconds now) }

def upload (caller : Caller) (request : SignedRequest) (header : Header) (ciphertext : Bytes) :
    TxM Accepted := do
  let actor ← svc.signedActor caller request
  lift (requireActivated actor)
  lift (orInvalid header.validate)
  refuse (header.vaultID ≠ actor.vault.id ∨ header.deviceID ≠ actor.device.deviceID)
    (.is .forbidden)
  let vault := actor.vault
  refuse (checkedNext vault.currentRevision ≠ some header.revision ∨
    header.vaultEpoch ≠ vault.epoch ∨ header.deviceListIndex ≠ vault.headIndex) (.is .conflict)
  lift (orInvalid (header.verifyCiphertext svc.crypto ciphertext))
  let list ← query (loadList svc.crypto · vault.id)
  let previous ← previousHeader vault header
  lift (orInvalid (verifyHeader svc.crypto list previous header))
  svc.makeRoom vault ciphertext.length
  let now ← svc.now
  let receipt := Encoding.encode ((svc.receiptFor vault header now).sign svc.crypto svc.receiptKey)
  let stored : StoredHeader := ⟨header, header.digest svc.crypto, receipt, now⟩
  update (·.insertHeader stored)
  write (·.putCiphertext vault.id header.revision ciphertext)
  onlyIf (∃ earlier ∈ previous, earlier.vaultEpoch < header.vaultEpoch)
    (write (·.deleteCiphertextsBefore vault.id header.revision))
  let vault := { vault with currentRevision := header.revision, updatedAt := now }
  update (·.updateVault vault)
  onlyIf (svc.headerRetention < header.revision)
    (write (·.pruneHeaders vault.id (header.revision - svc.headerRetention + 1)))
  pure ⟨stored, vault, receipt⟩

def putCheckpoint (caller : Caller) (request : SignedRequest) (checkpoint : Checkpoint) :
    TxM StoredCheckpoint := do
  let actor ← svc.signedActor caller request
  lift (requireActivated actor)
  refuse (checkpoint.vaultID ≠ actor.vault.id ∨ checkpoint.deviceID ≠ actor.device.deviceID)
    (.is .forbidden)
  lift (orInvalid (checkpoint.verify svc.crypto actor.device.signingKey))
  let unix ← svc.unix
  refuse (withinSkew checkpoint.observedAt unix = false)
    (.detail .invalid "the checkpoint time is not close to the service clock")
  let previous ← find (·.checkpoint actor.vault.id actor.device.deviceID)
  refuse (∃ earlier ∈ previous, checkpoint.observedAt ≤ earlier.observedAt ∨
    checkpoint.deviceListIndex < earlier.deviceListIndex ∨
    checkpoint.headerRevision < earlier.headerRevision) (.is .conflict)
  let now ← svc.now
  let stored : StoredCheckpoint := { checkpoint with acceptedAt := now }
  write (·.putCheckpoint stored)
  pure stored

/-- `Snapshot`. -/
def snapshot (caller : Caller) : TxM Snapshot := do
  let actor ← svc.actorFor caller
  lift (requireApproved actor)
  refuse (actor.vault.currentRevision = 0) (.is .notFound)
  let header ← query (·.header actor.vault.id actor.vault.currentRevision)
  let ciphertext ← query (·.ciphertext actor.vault.id actor.vault.currentRevision)
  pure ⟨header, ciphertext, actor.vault⟩

/-! Ending and maintaining. -/

def reset (caller : Caller) (request : SignedRequest) (vaultEpoch : Nat) : TxM Unit := do
  let actor ← svc.signedActor caller request
  lift (requireApproved actor)
  refuse (vaultEpoch ≠ actor.vault.epoch) (.is .conflict)
  write (·.deleteVault actor.vault.id)

def adminReset (ownerKey : Bytes) : TxM Unit := do
  let vault ← query (·.vaultByOwner ownerKey)
  write (·.deleteVault vault.id)

def maintain : TxM Unit := do
  let now ← svc.now
  write (·.purgeExpired now)

end Service

/-! Operations as data. -/

/-- A signed operation and its input. -/
inductive Op where
  | createVault (entry : DeviceListEntry)
  | beginPairing (offer : PairingOffer)
  | answerPairing (deviceID message : Bytes)
  | confirmPairing (message : Bytes)
  | cancelPairing (deviceID : Bytes)
  | approve (entry : DeviceListEntry) (pkg : KeyPackageV3)
  | activate (packageDigest : Bytes)
  | remove (entry : DeviceListEntry) (packages : List KeyPackageV3)
  | rotate (entry : DeviceListEntry) (packages : List KeyPackageV3)
  | upgradeKey (entry : DeviceListEntry)
  | upload (header : Header) (ciphertext : Bytes)
  | putCheckpoint (checkpoint : Checkpoint)
  | reset (vaultEpoch : Nat)
  deriving DecidableEq

structure Call where
  caller : Caller
  request : SignedRequest
  op : Op
  deriving DecidableEq

inductive Action where
  | call (call : Call)
  | adminReset (ownerKey : Bytes)
  | maintain
  deriving DecidableEq

def Service.run (svc : Service) : Action → TxM Unit
  | .call ⟨caller, request, op⟩ =>
    match op with
    | .createVault entry => do let _ ← svc.createVault caller request entry
    | .beginPairing offer => svc.beginPairing caller request offer
    | .answerPairing deviceID message => svc.answerPairing caller request deviceID message
    | .confirmPairing message => svc.confirmPairing caller request message
    | .cancelPairing deviceID => svc.cancelPairing caller request deviceID
    | .approve entry pkg => svc.approve caller request entry pkg
    | .activate packageDigest => svc.activate caller request packageDigest
    | .remove entry packages => svc.remove caller request entry packages
    | .rotate entry packages => svc.rotate caller request entry packages
    | .upgradeKey entry => svc.upgradeKey caller request entry
    | .upload header ciphertext => do let _ ← svc.upload caller request header ciphertext
    | .putCheckpoint checkpoint => do let _ ← svc.putCheckpoint caller request checkpoint
    | .reset vaultEpoch => svc.reset caller request vaultEpoch
  | .adminReset ownerKey => Service.adminReset ownerKey
  | .maintain => svc.maintain

/-! `Store.Update` and `nonceKeeper.Update`. -/

/-- What a transaction leaves: its error if any, the store, how far the clock was
    read and the nonce the transaction recorded. -/
structure Transacted where
  error : Option Err
  data : State
  ticks : Nat
  spent : Option SpentNonce

/-- `Store.Update`: the working copy replaces the store only without an error. -/
def transact (x : TxM Unit) (data : State) (ticks : Nat) : Transacted :=
  match x ⟨data, ticks, none⟩ with
  | .ok _ tx => ⟨none, tx.data, tx.ticks, tx.spent⟩
  | .error e tx => ⟨some e, data, tx.ticks, tx.spent⟩

/-- The recovery transaction: whether the nonce was recorded, and the store. -/
def recoverNonce (data : State) (spent : SpentNonce) : Bool × State :=
  data.recordNonce spent.scope spent.nonce spent.now spent.expires

/-- `nonceKeeper.Update`: after an error, a nonce the transaction had recorded is
    recorded again. -/
def perform (x : TxM Unit) (data : State) (ticks : Nat) : Transacted :=
  let done := transact x data ticks
  match done.error, done.spent with
  | some _, some spent => { done with data := (recoverNonce done.data spent).2 }
  | _, _ => done

end Sesame.Syncsvc
