import SesameServer.Lib.Encoding
import SesameServer.Lib.Outcome

/- Values, errors and canonical payloads of the sync protocol
   (`internal/syncproto/canonical.go`, `constants.go`).

   SHA-256 and Ed25519 are parameters (`Crypto`): nothing below depends on what
   they compute, and where a result needs a law of theirs it says so. A payload
   is the concatenation of length-prefixed parts, the first of which is its
   label; numbers are written in decimal.

   Errors follow the source's wrapping: a sentinel, a sentinel with a detail
   (`fmt.Errorf("%w: detail", …)`), a sentinel around a cause
   (`fmt.Errorf("%w: %w", …)`), or a context around a cause. -/
namespace Sesame.Syncproto
open Outcome

/-- The sentinel errors of `syncproto` and `syncsvc`. -/
inductive Sentinel where
  | deviceListInvalid | deviceListBroken | headerInvalid | historyBroken
  | requestSignature | checkpointInvalid
  | notFound | conflict | forbidden | invalid | signature | replay | quota
  | noVault | vaultExists | notActivated
  deriving DecidableEq

/-- The text `errors.New` gave the sentinel. -/
def Sentinel.text : Sentinel → String
  | .deviceListInvalid => "sync device list entry is invalid"
  | .deviceListBroken => "sync device list does not verify"
  | .headerInvalid => "sync header is invalid"
  | .historyBroken => "sync history does not verify"
  | .requestSignature => "sync request signature is invalid"
  | .checkpointInvalid => "sync checkpoint is invalid"
  | .notFound => "sync record not found"
  | .conflict => "sync state changed, fetch it again"
  | .forbidden => "sync action is not allowed for this device"
  | .invalid => "sync request is invalid"
  | .signature => "sync request signature is invalid"
  | .replay => "sync request was already used"
  | .quota => "sync storage limit reached"
  | .noVault => "this account has no synced vault"
  | .vaultExists => "this account already has a synced vault"
  | .notActivated => "sync device has not activated its key"

inductive Err where
  | plain (text : String)
  | is (sentinel : Sentinel)
  | detail (sentinel : Sentinel) (text : String)
  | wrap (sentinel : Sentinel) (cause : Err)
  | context (text : String) (cause : Err)
  deriving DecidableEq

/-- `err.Error()`. -/
def Err.text : Err → String
  | .plain t => t
  | .is s => s.text
  | .detail s t => s.text ++ ": " ++ t
  | .wrap s e => s.text ++ ": " ++ e.text
  | .context t e => t ++ ": " ++ e.text

/-- `errors.Is(err, sentinel)`. -/
def Err.has : Err → Sentinel → Bool
  | .plain _, _ => false
  | .is s, x => s == x
  | .detail s _, x => s == x
  | .wrap s e, x => s == x || e.has x
  | .context _ e, x => e.has x

/-- The primitives of `crypto/sha256` and `crypto/ed25519`. -/
structure Crypto where
  sha256 : Bytes → Bytes
  /-- `ed25519.Verify(key, message, signature)`. -/
  verify : Bytes → Bytes → Bytes → Bool
  /-- `ed25519.Sign(key, message)`. -/
  sign : Bytes → Bytes → Bytes
  /-- `PrivateKey.Public`. -/
  publicKey : Bytes → Bytes

/-! Constants. -/

def maxCiphertextBytes : Nat := 10 * 1024 * 1024
def xChaChaNonceBytes : Nat := 24
def ed25519SignatureBytes : Nat := 64
def ed25519PublicKeyBytes : Nat := 32
def x25519PublicKeyBytes : Nat := 32
def xWingPublicKeyBytes : Nat := 1216
def maxEncryptedKeyPackageBytes : Nat := 64 * 1024
def maxDevicesPerVault : Nat := 10
def versionV3 : Int := 3
def digestBytes : Nat := 32
def maxSealedLabelBytes : Nat := 256
def minSealedLabelBytes : Nat := 40
def requestNonceBytes : Nat := 16
def maxHeaderRetention : Nat := 10000
def requestTimestampSkew : Nat := 5 * 60
def requestNonceRetention : Nat := 2 * requestTimestampSkew + 60

/-- `^uint64(0)`. -/
def maxUint64 : Nat := 2 ^ 64 - 1

def labelDeviceList : Bytes := utf8 "sesame-sync-v3-devicelist"
def labelDeviceListDigest : Bytes := utf8 "sesame-sync-v3-devicelist-digest"
def labelHeader : Bytes := utf8 "sesame-sync-v3-header"
def labelHeaderDigest : Bytes := utf8 "sesame-sync-v3-header-digest"
def labelRequest : Bytes := utf8 "sesame-sync-v3-request"
def labelReceipt : Bytes := utf8 "sesame-sync-v3-receipt"
def labelAAD : Bytes := utf8 "sesame-sync-v3-aad"
def labelKeyPackage : Bytes := utf8 "sesame-sync-v3-keypackage"
def labelKeyPackageDigest : Bytes := labelKeyPackage ++ utf8 "-digest"
def labelCheckpoint : Bytes := utf8 "sesame-sync-v3-checkpoint"

/-! Payloads. -/

/-- The encoded parts of a payload, its label first: `canonical.bytes`. -/
def canonical (parts : List Bytes) : Bytes := parts.flatMap Encoding.frame

def number (n : Nat) : Bytes := Encoding.decimal n

/-- `canonical.digest`. -/
def canonicalDigest (crypto : Crypto) (parts : List Bytes) : Bytes :=
  Encoding.encode (crypto.sha256 (canonical parts))

/-- Two payloads of equally many parts, none longer than a slice can be, are
    equal only if their parts are. -/
theorem canonical_inj : ∀ {ps qs : List Bytes}, ps.length = qs.length →
    (∀ p ∈ ps, p.length < 2 ^ 64) → (∀ q ∈ qs, q.length < 2 ^ 64) →
    canonical ps = canonical qs → ps = qs
  | [], [], _, _, _, _ => rfl
  | p :: ps, q :: qs, hl, hp, hq, h => by
    simp only [canonical, List.flatMap_cons] at h
    obtain ⟨rfl, ht⟩ := Encoding.frame_inj (hp p List.mem_cons_self) (hq q List.mem_cons_self) h
    have := canonical_inj (by simpa using hl) (fun x hx => hp x (List.mem_cons_of_mem _ hx))
      (fun x hx => hq x (List.mem_cons_of_mem _ hx)) ht
    rw [this]
  | [], _ :: _, hl, _, _, _ => absurd hl (by simp)
  | _ :: _, [], hl, _, _, _ => absurd hl (by simp)

/-! Identifiers and encoded values. -/

/-- One character of `[A-Za-z0-9_-]`. -/
def isOpaqueChar (c : UInt8) : Bool := (Encoding.value c).isSome

/-- `opaqueID.MatchString`: `^[A-Za-z0-9_-]{16,128}$`. -/
def opaqueID (s : Bytes) : Bool :=
  16 ≤ s.length && s.length ≤ 128 && s.all isOpaqueChar

/-- The decoding shared by the `decodeCanonical` functions: no line break,
    strict base64url of an allowed length, and the only encoding of its bytes. -/
def decodeCanonicalWhere (value : Bytes) (allowed : Nat → Bool) (lengthText : String) :
    Except Err Bytes :=
  if value.any Encoding.isLineBreak then .error (.plain "sync value is not canonical base64url")
  else match Encoding.decode value with
    | none => .error (.plain lengthText)
    | some decoded =>
      if !allowed decoded.length then .error (.plain lengthText)
      else if Encoding.encode decoded ≠ value then
        .error (.plain "sync value is not canonical base64url")
      else .ok decoded

def decodeCanonical (value : Bytes) (length : Nat) : Except Err Bytes :=
  decodeCanonicalWhere value (· == length)
    "sync value is not canonical base64url of the expected length"

def decodeCanonicalOneOf (value : Bytes) : List Nat → Except Err Bytes
  | [] => .error (.plain "sync value is not canonical base64url of an allowed length")
  | length :: lengths =>
    match decodeCanonical value length with
    | .ok decoded => .ok decoded
    | .error _ => decodeCanonicalOneOf value lengths

def decodeCanonicalRange (value : Bytes) (minimum maximum : Nat) : Except Err Bytes :=
  decodeCanonicalWhere value (fun n => minimum ≤ n && n ≤ maximum)
    "sync value is not canonical base64url of an allowed length"

def failed {α : Type} : Except Err α → Bool
  | .ok _ => false
  | .error _ => true

def validDigest (value : Bytes) : Bool := !failed (decodeCanonical value digestBytes)

/-- `checkedNext`: the next number, unless it would wrap. -/
def checkedNext (value : Nat) : Option Nat :=
  if value = maxUint64 then none else some (value + 1)

/-- The check of an Ed25519 signature whose key and signature arrive encoded. -/
def signatureHolds (crypto : Crypto) (key payload signature : Bytes) : Bool :=
  match decodeCanonical signature ed25519SignatureBytes with
  | .error _ => false
  | .ok decoded => crypto.verify key payload decoded

theorem checkedNext_some {n m : Nat} : checkedNext n = some m ↔ n ≠ maxUint64 ∧ m = n + 1 := by
  unfold checkedNext
  split
  · next h => simp [h]
  · next h => simp [h, eq_comm]

theorem failed_eq_false {α : Type} {r : Except Err α} : failed r = false ↔ ∃ a, r = .ok a := by
  cases r <;> simp [failed]

/-- An encoded value of the right length passes, and decodes to what was encoded. -/
theorem decodeCanonical_encode {b : Bytes} {n : Nat} (h : b.length = n) :
    decodeCanonical (Encoding.encode b) n = .ok b := by
  unfold decodeCanonical decodeCanonicalWhere
  have hb : (Encoding.encode b).any Encoding.isLineBreak = false := by
    rw [List.any_eq_false]
    intro c hc
    simp [Encoding.encode_no_lineBreak b c hc]
  simp [hb, Encoding.decode_encode, h]

theorem opaqueID_no_zero {s : Bytes} (h : opaqueID s = true) : (0 : UInt8) ∉ s := by
  intro h0
  simp only [opaqueID, Bool.and_eq_true, List.all_eq_true] at h
  have := h.2 0 h0
  revert this
  decide

theorem opaqueID_ne_nil {s : Bytes} (h : opaqueID s = true) : s ≠ [] := by
  rintro rfl
  revert h
  decide

end Sesame.Syncproto
