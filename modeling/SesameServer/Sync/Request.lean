import SesameServer.Sync.Header

/- Signed requests, receipts, key packages and checkpoints
   (`internal/syncproto/request.go`, `checkpoint.go`). -/
namespace Sesame.Syncproto
open Outcome

structure RequestSignature where
  method : Bytes
  target : Bytes
  body : Bytes
  token : Bytes
  timestamp : Nat
  nonce : Bytes

def RequestSignature.signingPayload (crypto : Crypto) (request : RequestSignature) : Bytes :=
  canonical [labelRequest, request.method, request.target, crypto.sha256 request.body,
    crypto.sha256 request.token, number request.timestamp, request.nonce]

def withinSkew (timestamp now : Nat) : Bool :=
  if now < timestamp then timestamp - now ≤ requestTimestampSkew
  else now - timestamp ≤ requestTimestampSkew

theorem withinSkew_iff {timestamp now : Nat} : withinSkew timestamp now = true ↔
    timestamp ≤ now + requestTimestampSkew ∧ now ≤ timestamp + requestTimestampSkew := by
  unfold withinSkew
  split <;> simp <;> omega

def RequestSignature.verify (crypto : Crypto) (request : RequestSignature)
    (encodedKey encodedSignature : Bytes) (now : Nat) : Except Err Unit := do
  check (failed (decodeCanonical request.nonce requestNonceBytes) = true) (.is .requestSignature)
  check (withinSkew request.timestamp now = false) (.is .requestSignature)
  match decodeCanonical encodedKey ed25519PublicKeyBytes with
  | .error _ => .error (.is .requestSignature)
  | .ok key =>
    check (signatureHolds crypto key (request.signingPayload crypto) encodedSignature = false)
      (.is .requestSignature)

/-- A request that verifies was made within the skew of the clock. -/
theorem RequestSignature.verify_skew {crypto : Crypto} {request : RequestSignature}
    {key signature : Bytes} {now : Nat} (h : request.verify crypto key signature now = .ok ()) :
    request.timestamp ≤ now + requestTimestampSkew ∧
      now ≤ request.timestamp + requestTimestampSkew := by
  simp only [verify, except_bind_ok, check_ok, Bool.not_eq_false] at h
  obtain ⟨_, _, _, hskew, _⟩ := h
  exact withinSkew_iff.mp hskew

structure ReceiptV3 where
  vaultID : Bytes
  revision : Nat
  headerDigest : Bytes
  vaultEpoch : Nat
  acceptedAt : Nat

def ReceiptV3.signingPayload (receipt : ReceiptV3) : Bytes :=
  canonical [labelReceipt, receipt.vaultID, number receipt.revision, receipt.headerDigest,
    number receipt.vaultEpoch, number receipt.acceptedAt]

def ReceiptV3.sign (crypto : Crypto) (receipt : ReceiptV3) (key : Bytes) : Bytes :=
  crypto.sign key receipt.signingPayload

def ReceiptV3.verify (crypto : Crypto) (receipt : ReceiptV3) (key signature : Bytes) : Bool :=
  signature.length == ed25519SignatureBytes && crypto.verify key receipt.signingPayload signature

structure KeyPackageV3 where
  vaultID : Bytes
  senderDeviceID : Bytes
  recipientDeviceID : Bytes
  vaultEpoch : Nat
  entryDigest : Bytes
  ciphertext : Bytes
  signature : Bytes
  deriving DecidableEq

namespace KeyPackageV3

/-- The fields both the signing payload and the digest start with. -/
def fields (pkg : KeyPackageV3) : List Bytes :=
  [pkg.vaultID, pkg.senderDeviceID, pkg.recipientDeviceID, number pkg.vaultEpoch, pkg.entryDigest,
   pkg.ciphertext]

def signingPayload (pkg : KeyPackageV3) : Bytes := canonical (labelKeyPackage :: pkg.fields)

def digest (crypto : Crypto) (pkg : KeyPackageV3) : Bytes :=
  canonicalDigest crypto (labelKeyPackageDigest :: pkg.fields ++ [pkg.signature])

def validate (pkg : KeyPackageV3) : Except Err Unit := do
  check (¬(opaqueID pkg.vaultID = true ∧ opaqueID pkg.senderDeviceID = true ∧
    opaqueID pkg.recipientDeviceID = true)) (.plain "sync key package is invalid")
  check (pkg.vaultEpoch = 0 ∨ validDigest pkg.entryDigest = false)
    (.plain "sync key package is invalid")
  check (failed (decodeCanonicalRange pkg.ciphertext 16 maxEncryptedKeyPackageBytes) = true)
    (.plain "sync key package is invalid")
  check (failed (decodeCanonical pkg.signature ed25519SignatureBytes) = true)
    (.plain "sync key package is invalid")

def verify (crypto : Crypto) (pkg : KeyPackageV3) (encodedKey : Bytes) : Except Err Unit := do
  pkg.validate
  match decodeCanonical encodedKey ed25519PublicKeyBytes with
  | .error _ => .error (.plain "sync key package is invalid")
  | .ok key =>
    check (signatureHolds crypto key pkg.signingPayload pkg.signature = false)
      (.plain "sync key package signature is invalid")

end KeyPackageV3

structure Checkpoint where
  version : Int
  vaultID : Bytes
  deviceID : Bytes
  deviceListIndex : Nat
  deviceListDigest : Bytes
  headerRevision : Nat
  headerDigest : Bytes
  observedAt : Nat
  signature : Bytes
  deriving DecidableEq

namespace Checkpoint

def signingPayload (checkpoint : Checkpoint) : Bytes :=
  canonical [labelCheckpoint, number (toUint64 checkpoint.version), checkpoint.vaultID,
    checkpoint.deviceID, number checkpoint.deviceListIndex, checkpoint.deviceListDigest,
    number checkpoint.headerRevision, checkpoint.headerDigest, number checkpoint.observedAt]

def validate (checkpoint : Checkpoint) : Except Err Unit := do
  check (checkpoint.version ≠ versionV3) (.detail .checkpointInvalid "version")
  check (¬(opaqueID checkpoint.vaultID = true ∧ opaqueID checkpoint.deviceID = true))
    (.detail .checkpointInvalid "identifiers")
  check (checkpoint.deviceListIndex = 0 ∨ validDigest checkpoint.deviceListDigest = false)
    (.detail .checkpointInvalid "device list head")
  check (decide (checkpoint.headerRevision = 0) ≠ decide (checkpoint.headerDigest = []))
    (.detail .checkpointInvalid "header head")
  check (checkpoint.headerDigest ≠ [] ∧ validDigest checkpoint.headerDigest = false)
    (.detail .checkpointInvalid "header head")
  check (checkpoint.observedAt = 0) (.detail .checkpointInvalid "time")
  check (failed (decodeCanonical checkpoint.signature ed25519SignatureBytes) = true)
    (.detail .checkpointInvalid "signature")

def verify (crypto : Crypto) (checkpoint : Checkpoint) (encodedKey : Bytes) : Except Err Unit := do
  checkpoint.validate
  match decodeCanonical encodedKey ed25519PublicKeyBytes with
  | .error _ => .error (.detail .checkpointInvalid "signer key")
  | .ok key =>
    check (signatureHolds crypto key checkpoint.signingPayload checkpoint.signature = false)
      (.detail .checkpointInvalid "signature")

/-- `VerifyAgainst`: by the device that was a member at the index the checkpoint names. -/
def verifyAgainst (crypto : Crypto) (checkpoint : Checkpoint) (list : DeviceList) :
    Except Err Unit := do
  checkpoint.validate
  check (checkpoint.vaultID ≠ list.vaultID) (.detail .checkpointInvalid "vault")
  check (list.head < checkpoint.deviceListIndex) (.detail .historyBroken
    "names a device list entry this device has not verified")
  check ((list.digestAt checkpoint.deviceListIndex).getD [] ≠ checkpoint.deviceListDigest)
    (.detail .historyBroken "device list digest")
  match list.memberAt checkpoint.deviceID checkpoint.deviceListIndex with
  | none => .error (.detail .checkpointInvalid "signer was not a member")
  | some signer => checkpoint.verify crypto signer.signingKey

end Checkpoint

end Sesame.Syncproto
