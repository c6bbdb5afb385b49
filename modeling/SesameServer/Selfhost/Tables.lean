import SesameServer.Lib.Outcome
import SesameServer.Lib.Table
import SesameServer.Selfhost.AuditLog

/- The tables of the self-hosted server (`internal/selfhost/sqlitestore`, migration
   `0001_init.sql`), what its calls take from outside, and the checks of
   `internal/selfhost/validate.go`.

   1. Rows. A `CHECK` of the schema is in the type: a credential has both its columns or
      neither, a device or pairing has one holder, a setup token has an owner unless it is
      the first.
   2. `Db`, `Service`, `Env` — the clock and `crypto/rand` are read as often as the call
      reads them.
   3. `Tx` — a transaction: it commits if it ends without an error and is rolled back
      otherwise. -/
namespace Sesame.Selfhost
open Outcome

/-! Rows. -/

/-- `password_hash` and the sealed `totp_secret` of an owner. -/
structure Credential where
  passwordHash : Bytes
  totpSecret : Bytes
  deriving DecidableEq

structure Owner where
  name : Bytes
  nameKey : Bytes
  credential : Option Credential
  totpLastCounter : Int
  createdAt : Int
  lastLoginAt : Option Int
  removedAt : Option Int
  deriving DecidableEq

/-- `kind` and `owner_id` of a setup token. -/
inductive Purpose where
  | first
  | invite (owner : Bytes)
  | reset (owner : Bytes)
  deriving DecidableEq

def Purpose.kind : Purpose → Bytes
  | .first => utf8 "first"
  | .invite _ => utf8 "invite"
  | .reset _ => utf8 "reset"

def Purpose.owner : Purpose → Option Bytes
  | .first => none
  | .invite owner => some owner
  | .reset owner => some owner

structure SetupToken where
  tokenHash : Bytes
  purpose : Purpose
  totpSecret : Option Bytes
  createdBy : Bytes
  createdAt : Int
  expiresAt : Int
  usedAt : Option Int
  deriving DecidableEq

structure SessionRow where
  tokenHash : Bytes
  ownerID : Bytes
  userAgent : Bytes
  createdAt : Int
  expiresAt : Int
  recentAuthAt : Int
  deriving DecidableEq

structure Member where
  name : Bytes
  nameKey : Bytes
  createdAt : Int
  removedAt : Option Int
  deriving DecidableEq

/-- `owner_id` and `member_id` of a device or a pairing. -/
inductive Holder where
  | owner (id : Bytes)
  | member (id : Bytes)
  deriving DecidableEq

def Holder.kind : Holder → Bytes
  | .owner _ => utf8 "owner"
  | .member _ => utf8 "member"

def Holder.id : Holder → Bytes
  | .owner id => id
  | .member id => id

structure DeviceMeta where
  appVersion : Bytes
  platform : Bytes
  architecture : Bytes
  updateChannel : Bytes
  protocolVersion : Int
  browserHelperCapable : Bool
  browserHelperObserved : Bool
  deriving DecidableEq

structure DeviceRow where
  tokenHash : Bytes
  name : Bytes
  holder : Holder
  deviceMeta : DeviceMeta
  helperObservedAt : Option Int
  createdAt : Int
  expiresAt : Int
  lastSeenAt : Int
  revokedAt : Option Int
  deriving DecidableEq

structure PairingRow where
  codeHash : Bytes
  holder : Holder
  deviceNameHint : Bytes
  createdBy : Bytes
  createdAt : Int
  expiresAt : Int
  usedAt : Option Int
  cancelledAt : Option Int
  deviceID : Option Bytes
  deriving DecidableEq

structure RateRow where
  windowStartedAt : Int
  windowSeconds : Int
  attempts : Int
  deriving DecidableEq

structure Db where
  owners : Table Bytes Owner
  setupTokens : Table Bytes SetupToken
  sessions : Table Bytes SessionRow
  members : Table Bytes Member
  devices : Table Bytes DeviceRow
  pairings : Table Bytes PairingRow
  rateLimits : Table Bytes RateRow
  /-- `update_settings.enabled`; `none` is `unset`. -/
  updateChecks : Option Bool
  audit : AuditLog

def Db.empty : Db := ⟨∅, ∅, ∅, ∅, ∅, ∅, ∅, none, .empty⟩

/-- An owner that exists, is not removed and has a password. -/
def Owner.active (o : Owner) : Bool := o.removedAt.isNone && o.credential.isSome

def DeviceRow.live (d : DeviceRow) : Bool := d.revokedAt.isNone

/-- A pairing that is neither used nor cancelled. -/
def PairingRow.live (p : PairingRow) : Bool := p.usedAt.isNone && p.cancelledAt.isNone

/-! From outside. -/

inductive Err where
  | notFound | conflict | invalidInput | invalidCredentials | replayedCode | sessionInvalid
  | setupTokenInvalid | pairingInvalid | deviceInvalid | lastOwner
  | secretBroken
  /-- `UNIQUE` or `PRIMARY KEY`, where the call does not make it `conflict`. -/
  | unique
  | foreignKey
  deriving DecidableEq

/-- The server's primitives and configuration. -/
structure Service where
  sha256 : Bytes → Bytes
  /-- `strings.ToLower`. -/
  toLower : Bytes → Bytes
  /-- `authkit.HashPassword` with its salt. -/
  hashPassword : Bytes → Bytes → Bytes
  /-- `authkit.VerifyPassword(hash, password)`. -/
  verifyPassword : Bytes → Bytes → Bool
  /-- `authkit.Seal` under the admin key, with its nonce. -/
  sealSecret : Bytes → Bytes → Bytes
  /-- `authkit.Open`. -/
  openSecret : Bytes → Option Bytes
  open_seal : ∀ secret nonce, openSecret (sealSecret secret nonce) = some secret
  /-- `decodeSecret` of a TOTP secret. -/
  decodeSecret : Bytes → Option Bytes
  /-- `truncate`: the code of a key at a counter. -/
  truncate : Bytes → Int → Nat
  sessionTTL : Int

/-- What one call reads from the clock and from `crypto/rand`, in the order it reads it. -/
structure Env where
  clock : Nat → Int
  /-- `newID`. -/
  id : Nat → Bytes
  /-- `authkit.NewToken`. -/
  token : Nat → Bytes
  /-- `authkit.NewTOTPSecret`. -/
  secret : Bytes
  nonce : Bytes
  salt : Bytes

abbrev Tx := EStateM Err Db

variable (svc : Service)

/-- `authkit.HashToken`. -/
def Service.hashToken (token : Bytes) : Bytes := svc.sha256 token

/-- `selfhost.NameKey`. -/
def Service.nameKey (name : Bytes) : Bytes := svc.toLower name

/-! Checks. -/

def maxNameLength : Nat := 64
def maxMetaLength : Nat := 64
def minPasswordLength : Nat := 12
def maxPasswordLength : Nat := 1024
def pairingCodeMinLength : Nat := 32
def pairingCodeMaxLength : Nat := 128

-- lifetimes, in seconds
def pairingTTL : Int := 10 * 60
def deviceTokenTTL : Int := 90 * 24 * 3600
def setupTokenTTL : Int := 24 * 3600

/-- `unicode.IsControl`, or U+FFFD. -/
def badNameCharacter : Utf8.Piece → Bool
  | .ascii b => b < 0x20 || b == 0x7f
  | .wide bytes => (bytes.head? == some 0xc2 && bytes.getLast?.any (· < 0xa0)) ||
      bytes == Json.replacement
  | .bad _ => true

def normalizeName (value : Bytes) : Option Bytes :=
  let name := Utf8.trimSpace value
  if name.isEmpty || (Utf8.pieces name).length > maxNameLength ||
    (Utf8.pieces name).any badNameCharacter then none
  else some name

def validPassword (value : Bytes) : Bool :=
  minPasswordLength ≤ value.length && value.length ≤ maxPasswordLength

def normalizeDeviceName (value : Bytes) : Option Bytes :=
  let name := Utf8.trimSpace value
  if name.isEmpty || name.length > maxNameLength || name.any (fun b => b < 0x20 || b > 0x7e) then
    none
  else some name

def validPairingCode (value : Bytes) : Bool :=
  pairingCodeMinLength ≤ value.length && value.length ≤ pairingCodeMaxLength

def validDeviceMeta (m : DeviceMeta) : Bool :=
  !(m.protocolVersion < 0 || m.protocolVersion > 100) &&
  [m.appVersion, m.platform, m.architecture, m.updateChannel].all fun value =>
    !(value.length > maxMetaLength || value.any (fun b => b == 13 || b == 10 || b == 9))

/-- `token == "" || len(token) > 256`. -/
def badToken (token : Bytes) : Bool := token.isEmpty || token.length > 256

/-! Parts of transactions. -/

def SystemActor : Actor := ⟨.system, []⟩

/-- `s.audit(…)`. -/
def audit (now : Int) (by_ : Actor) (action : String) (target : Bytes)
    (detail : List (Bytes × Bytes)) : Tx Unit := do
  let db ← get
  let appended ← need (appendAudit svc.sha256 db.audit
    ⟨by_, utf8 action, target, Json.StringMap.ofMembers detail⟩ now) .invalidInput
  set { db with audit := appended.2 }

/-- `chooseUpdatesAtSetup`, over how the choice is stored and how it is noted. -/
def chooseUpdatesAtSetup {m : Type → Type} [Monad m] (store : Bool → m Unit)
    (audit : String → List (Bytes × Bytes) → m Unit) (enabled : Bool) : m Unit := do
  store enabled
  audit "updates.updated"
    [(utf8 "enabled", if enabled then utf8 "on" else utf8 "off"), (utf8 "source", utf8 "setup")]

/-- `fmt.Sprint` of a count. -/
def countText (n : Nat) : Bytes := Encoding.decimal n

/-- `revokeDevicesWhere`: the number of devices it revoked. -/
def revokeDevicesWhere (now : Int) (holder : Holder) : Tx Nat := do
  let db ← get
  let due := fun (_ : Bytes) (d : DeviceRow) => d.holder == holder && d.live
  set { db with devices := db.devices.updateWhere due fun d => { d with revokedAt := some now } }
  pure (db.devices.count due)

/-- `cancelPairingsWhere`. -/
def cancelPairingsWhere (now : Int) (holder : Holder) : Tx Unit :=
  modify fun db => { db with
    pairings := db.pairings.updateWhere (fun _ p => p.holder == holder && p.live)
      fun p => { p with cancelledAt := some now } }

end Sesame.Selfhost
