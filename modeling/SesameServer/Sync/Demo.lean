import SesameServer.Sync.Run

/- A small service to run by hand.

   `toyCrypto` stands in for SHA-256 and Ed25519 where a run has to be evaluated: a
   32-byte checksum, and signatures that name their key and the checksum of what
   they sign. It keeps the law the service relies on (`toyCrypto_signs`), so what
   a run below shows is no effect of a broken primitive. The rest builds the
   requests of devices that sign with it. -/
namespace Sesame.Syncsvc
open Syncproto

/-- What the service relies on of its own signatures under `key`. -/
def Signs (crypto : Crypto) (key : Bytes) : Prop :=
  ∀ m, (crypto.sign key m).length = ed25519SignatureBytes ∧
    crypto.verify (crypto.publicKey key) m (crypto.sign key m) = true

namespace Demo

def checksum (b : Bytes) : Nat := b.foldl (fun acc c => (acc * 257 + c.toNat + 1) % 2 ^ 256) 7

def toyHash (b : Bytes) : Bytes :=
  (List.range 32).map fun i => UInt8.ofNat (checksum b / 256 ^ i)

def toyCrypto : Crypto where
  sha256 := toyHash
  publicKey key := key.take 32
  sign key m := key.take 32 ++ toyHash m
  verify key m signature := signature == key ++ toyHash m

theorem toyCrypto_signs {key : Bytes} (h : key.length = privateKeySize) : Signs toyCrypto key := by
  intro m
  refine ⟨?_, by simp [toyCrypto]⟩
  simp [toyCrypto, toyHash, h, privateKeySize, ed25519SignatureBytes]

def secret (n : UInt8) : Bytes := List.replicate 64 n

def signingKey (n : UInt8) : Bytes := Encoding.encode (toyCrypto.publicKey (secret n))

def packageKey (n : UInt8) : Bytes := Encoding.encode (List.replicate 32 n)

def signed (n : UInt8) (payload : Bytes) : Bytes :=
  Encoding.encode (toyCrypto.sign (secret n) payload)

def vaultID : Bytes := utf8 "demo-vault-00001"

def deviceID (n : UInt8) : Bytes := utf8 "demo-device-000" ++ [n + 48]

def ownerKey : Bytes := utf8 "owner"

/-- The caller whose token belongs to device `n`. -/
def caller (n : UInt8) : Caller := ⟨ownerKey, utf8 "token-" ++ [n + 48], utf8 "secret-" ++ [n + 48]⟩

/-- A request of `by_` for `op`, signed at `timestamp` by device `n` with a nonce of its own. -/
def callAs (by_ : Caller) (n : UInt8) (timestamp : Nat) (nonce : UInt8) (op : Op) : Call :=
  let unsigned : SignedRequest :=
    { method := utf8 "POST", target := utf8 "/api/v3/sync", body := [], timestamp := timestamp,
      nonce := Encoding.encode (List.replicate 16 nonce), signature := [] }
  let payload := (Service.signatureOf by_ unsigned).signingPayload toyCrypto
  ⟨by_, { unsigned with signature := signed n payload }, op⟩

def call (n : UInt8) : Nat → UInt8 → Op → Call := callAs (caller n) n

def signEntry (n : UInt8) (entry : DeviceListEntry) : DeviceListEntry :=
  { entry with signature := signed n entry.signingPayload }

/-- The entry by which device `n` creates the vault `v`. -/
def createEntry (v : Bytes) (n : UInt8) : DeviceListEntry :=
  signEntry n
    { vaultID := v, index := 1, previousDigest := [], kind := EntryKind.create.text,
      signerDeviceID := deviceID n, subjectDeviceID := deviceID n,
      subjectSigningKey := signingKey n, subjectPackageKey := packageKey n,
      sealedLabel := zeros minSealedLabelBytes, epochAfter := 1, snapshotFloor := 0,
      signature := [] }

/-- A service over `toyCrypto` with the given clock. -/
def service (clock : Nat → Time) : Service where
  crypto := toyCrypto
  receiptKey := secret 9
  clock := clock
  byteBudget := 4096
  headerRetention := 2
  receiptKey_size := by decide
  byteBudget_pos := by decide
  headerRetention_pos := by decide

/-- The clock that always reads `t` seconds. -/
def still (t : Nat) : Nat → Time := fun _ => t * second

def created : List Action := [.call (call 1 1000 1 (.createVault (createEntry vaultID 1)))]

def createdVault : Vault :=
  { id := vaultID, ownerKey := ownerKey, headIndex := 1, epoch := 1, createdAt := 1000 * second,
    updatedAt := 1000 * second }

theorem created_stored :
    (execAll (service (still 1000)) created start).2.data.vaults.lookup vaultID =
      some createdVault := by decide +kernel

def addEntry : DeviceListEntry :=
  signEntry 1
    { vaultID := vaultID, index := 2,
      previousDigest := (createEntry vaultID 1).digest toyCrypto, kind := EntryKind.add.text,
      signerDeviceID := deviceID 1, subjectDeviceID := deviceID 2,
      subjectSigningKey := signingKey 2, subjectPackageKey := packageKey 2,
      sealedLabel := zeros minSealedLabelBytes, epochAfter := 1, snapshotFloor := 0,
      signature := [] }

def addPackage : KeyPackageV3 :=
  let unsigned : KeyPackageV3 :=
    { vaultID := vaultID, senderDeviceID := deviceID 1, recipientDeviceID := deviceID 2,
      vaultEpoch := 1, entryDigest := addEntry.digest toyCrypto, ciphertext := zeros 16,
      signature := [] }
  { unsigned with signature := signed 1 unsigned.signingPayload }

/-- Device 1 creates the vault and admits device 2, which has not activated yet. -/
def paired : List Action :=
  created ++
    [.call (call 2 1000 2 (.beginPairing ⟨deviceID 2, signingKey 2, packageKey 2, utf8 "offer"⟩)),
     .call (call 1 1000 3 (.answerPairing (deviceID 2) (utf8 "answer"))),
     .call (call 2 1000 4 (.confirmPairing (utf8 "confirm"))),
     .call (call 1 1000 5 (.approve addEntry addPackage))]

def removeEntry : DeviceListEntry :=
  signEntry 1
    { vaultID := vaultID, index := 3, previousDigest := addEntry.digest toyCrypto,
      kind := EntryKind.remove.text, signerDeviceID := deviceID 1, subjectDeviceID := deviceID 2,
      subjectSigningKey := [], subjectPackageKey := [], sealedLabel := [], epochAfter := 2,
      snapshotFloor := 0, signature := [] }

/-- The removal of device 2 from the vault that it was paired with. -/
def removal : Action :=
  .call ⟨caller 1, (call 1 1000 6 (.remove removeEntry [])).request, .remove removeEntry []⟩

/-- Device 2 joins the vault of device 1 and is removed again. -/
def removed : List Action := paired ++ [removal]

theorem removed_stored :
    ((execAll (service (still 1000)) removed start).2.data.vaults.lookup vaultID).isSome = true := by
  decide +kernel

end Demo

end Sesame.Syncsvc
