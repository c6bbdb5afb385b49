import SesameServer.Selfhost.Owners

/- The calls about members, pairings and devices, the rate limits, and `Maintain`
   (`internal/selfhost/sqlitestore`: `members.go`, `pairings.go`, `devices.go`,
   `ratelimit.go`, `ops.go`). A statement that would leave a reference to a row that is
   gone fails with `foreignKey`. -/
namespace Sesame.Selfhost
open Outcome

/-! Replies. -/

structure MemberInfo where
  id : Bytes
  name : Bytes
  createdAt : Int
  deriving DecidableEq

structure PairingInput where
  holder : Holder
  deviceNameHint : Bytes
  deriving DecidableEq

structure IssuedPairing where
  id : Bytes
  holder : Holder
  holderName : Bytes
  deviceNameHint : Bytes
  createdBy : Bytes
  createdAt : Int
  expiresAt : Int
  code : Bytes
  deriving DecidableEq

structure RedeemInput where
  code : Bytes
  deviceName : Bytes
  deviceMeta : DeviceMeta
  deriving DecidableEq

structure Device where
  id : Bytes
  name : Bytes
  holder : Holder
  holderName : Bytes
  deviceMeta : DeviceMeta
  browserHelperLastObservedAt : Option Int
  createdAt : Int
  expiresAt : Int
  lastSeenAt : Int
  revokedAt : Option Int
  deriving DecidableEq

structure IssuedDevice where
  device : Device
  token : Bytes
  deriving DecidableEq

structure MaintenanceReport where
  sessions : Nat
  setupTokens : Nat
  pairings : Nat
  devices : Nat
  rateLimits : Nat
  holders : Nat
  deriving DecidableEq

/-- `retryAfter` in seconds. -/
structure RateDecision where
  allowed : Bool
  remaining : Int
  retryAfter : Int
  deriving DecidableEq

variable (svc : Service)

/-! Holders. -/

/-- The name of a holder whose row is there. -/
def Db.holderName (db : Db) : Holder → Option Bytes
  | .owner id => (db.owners.lookup id).map (·.name)
  | .member id => (db.members.lookup id).map (·.name)

/-- `resolveHolder`: the name of a holder that may be given a pairing. -/
def Db.resolveHolder (db : Db) : Holder → Option Bytes
  | .owner id => ((db.owners.lookup id).filter fun o => o.active).map (·.name)
  | .member id => ((db.members.lookup id).filter fun m => m.removedAt.isNone).map (·.name)

def createMember (env : Env) (by_ : Actor) (name : Bytes) : Tx MemberInfo := do
  let normalized ← need (normalizeName name) .invalidInput
  let id := env.id 0
  let key := svc.nameKey normalized
  let db ← get
  let members ← need (db.members.insertNew id ⟨normalized, key, env.clock 0, none⟩
    fun m => m.removedAt.isNone && m.nameKey == key) .conflict
  set { db with members := members }
  audit svc (env.clock 1) by_ "member.created" id [(utf8 "name", normalized)]
  pure ⟨id, normalized, env.clock 0⟩

/-- The transaction of `RenameMember`; another that is not removed must not have the name. -/
def renameMember (env : Env) (by_ : Actor) (id name : Bytes) : Tx Unit := do
  let normalized ← need (normalizeName name) .invalidInput
  let key := svc.nameKey normalized
  let db ← get
  let row ← need ((db.members.lookup id).filter fun m => m.removedAt.isNone) .notFound
  refuse ((db.members.find? fun k m => k != id && m.removedAt.isNone && m.nameKey == key).isSome =
    true) .conflict
  set { db with members := db.members.insert id { row with name := normalized, nameKey := key } }
  audit svc (env.clock 0) by_ "member.renamed" id [(utf8 "from", row.name), (utf8 "to", normalized)]

def deleteMember (env : Env) (by_ : Actor) (id : Bytes) : Tx Nat := do
  let now := env.clock 0
  let db ← get
  let members ← need (db.members.change id (fun m => m.removedAt.isNone) fun m =>
    { m with removedAt := some now }) .notFound
  set { db with members := members }
  let revoked ← revokeDevicesWhere now (.member id)
  cancelPairingsWhere now (.member id)
  audit svc (env.clock 1) by_ "member.deleted" id [(utf8 "revokedDevices", countText revoked)]
  pure revoked

def revokeMemberDevices (env : Env) (by_ : Actor) (id : Bytes) : Tx Nat := do
  let db ← get
  refuse ((db.members.lookup id).all (fun m => m.removedAt.isSome) = true) .notFound
  let revoked ← revokeDevicesWhere (env.clock 0) (.member id)
  audit svc (env.clock 1) by_ "member.devices_revoked" id [(utf8 "count", countText revoked)]
  pure revoked

/-! Pairings. -/

def pairingHint (hint : Bytes) : Option Bytes :=
  if hint.isEmpty then some [] else normalizeDeviceName hint

def createPairing (env : Env) (by_ : Actor) (input : PairingInput) : Tx IssuedPairing := do
  refuse (input.holder.id = []) .invalidInput
  let hint ← need (pairingHint input.deviceNameHint) .invalidInput
  let code := env.token 0
  let hash := svc.hashToken code
  let id := env.id 0
  let now := env.clock 0
  let db ← get
  let holderName ← need (db.resolveHolder input.holder) .notFound
  cancelPairingsWhere now input.holder
  let expires := now + pairingTTL
  let db ← get
  let pairings ← need (db.pairings.insertNew id
    ⟨hash, input.holder, hint, by_.string, now, expires, none, none, none⟩
    fun p => p.codeHash == hash) .unique
  set { db with pairings := pairings }
  audit svc (env.clock 1) by_ "pairing.created" id
    [(utf8 "holderKind", input.holder.kind), (utf8 "holderId", input.holder.id)]
  pure ⟨id, input.holder, holderName, hint, by_.string, now, expires, code⟩

def cancelPairing (env : Env) (by_ : Actor) (id : Bytes) : Tx Unit := do
  let now := env.clock 0
  let db ← get
  let pairings ← need (db.pairings.change id (fun p => p.live && decide (now < p.expiresAt))
    fun p => { p with cancelledAt := some now }) .notFound
  set { db with pairings := pairings }
  audit svc (env.clock 1) by_ "pairing.cancelled" id []

/-- A row of `deviceSelect`. -/
def Db.readDevice (db : Db) (id : Bytes) (d : DeviceRow) : Device :=
  ⟨id, d.name, d.holder, (db.holderName d.holder).getD [], d.deviceMeta, d.helperObservedAt,
    d.createdAt, d.expiresAt, d.lastSeenAt, d.revokedAt⟩

/-- The pairing that `RedeemPairing` redeems. -/
def redeemable (now : Int) (code : Bytes) (db : Db) : Option (Bytes × PairingRow) :=
  db.pairings.find? fun _ p => p.codeHash == svc.hashToken code && p.live && decide (now < p.expiresAt)

/-- `if meta.ProtocolVersion == 0 { meta.ProtocolVersion = 1 }`. -/
def DeviceMeta.defaulted (m : DeviceMeta) : DeviceMeta :=
  if m.protocolVersion = 0 then { m with protocolVersion := 1 } else m

/-- What the columns hold; that the helper was observed is kept as a time. -/
def DeviceMeta.stored (m : DeviceMeta) : DeviceMeta := { m with browserHelperObserved := false }

def insertDevice (id : Bytes) (row : DeviceRow) : Tx Unit := do
  let db ← get
  refuse ((db.holderName row.holder).isNone = true) .foreignKey
  let devices ← need (db.devices.insertNew id row fun d => d.tokenHash == row.tokenHash) .unique
  set { db with devices := devices }

def redeemPairing (env : Env) (input : RedeemInput) : Tx IssuedDevice := do
  refuse (validPairingCode input.code = false) .pairingInvalid
  let name ← need (normalizeDeviceName input.deviceName) .invalidInput
  refuse (validDeviceMeta input.deviceMeta = false) .invalidInput
  let token := env.token 0
  let now := env.clock 0
  let db ← get
  let found ← need (redeemable svc now input.code db) .pairingInvalid
  let holder := found.2.holder
  let deviceID := env.id 0
  set { db with pairings := db.pairings.updateWhere (fun k _ => k == found.1) fun p =>
    { p with usedAt := some now } }
  let row : DeviceRow := ⟨svc.hashToken token, name, holder, input.deviceMeta.defaulted.stored, none,
    now, now + deviceTokenTTL, now, none⟩
  insertDevice deviceID row
  modify fun db => { db with pairings := db.pairings.updateWhere (fun k _ => k == found.1) fun p =>
    { p with deviceID := some deviceID } }
  let db ← get
  let device := db.readDevice deviceID row
  audit svc (env.clock 1) ⟨.device, deviceID⟩ "device.paired" deviceID
    [(utf8 "holderKind", holder.kind), (utf8 "holderId", holder.id), (utf8 "name", name),
      (utf8 "pairingId", found.1)]
  pure ⟨device, token⟩

/-! Devices. -/

/-- The device that has the token, if it is an `activeDevice`. -/
def activeDevice (now : Int) (token : Bytes) (db : Db) : Option (Bytes × DeviceRow) :=
  db.devices.find? fun _ d =>
    d.tokenHash == svc.hashToken token && d.live && decide (now < d.expiresAt)

def authenticateDevice (now : Int) (token : Bytes) (db : Db) : Except Err Device :=
  if badToken token then .error .deviceInvalid
  else match activeDevice svc now token db with
    | none => .error .deviceInvalid
    | some (id, d) => .ok (db.readDevice id d)

def DeviceRow.heard (now : Int) (m : DeviceMeta) (d : DeviceRow) : DeviceRow :=
  { d with
    deviceMeta := m.stored
    helperObservedAt := if m.browserHelperObserved then some now else d.helperObservedAt
    lastSeenAt := now }

def heartbeat (env : Env) (token : Bytes) (m : DeviceMeta) : Tx Device := do
  refuse (badToken token = true) .deviceInvalid
  refuse (m.protocolVersion < 1 ∨ validDeviceMeta m = false) .invalidInput
  let now := env.clock 0
  let db ← get
  let found ← need (activeDevice svc now token db) .deviceInvalid
  set { db with devices := db.devices.insert found.1 (found.2.heard now m) }
  pure (db.readDevice found.1 (found.2.heard now m))

/-- `UPDATE devices SET revoked_at = ?`. -/
def DeviceRow.revoke (now : Int) (d : DeviceRow) : DeviceRow := { d with revokedAt := some now }

/-- A device that is already revoked stays as it is. -/
def revokeDevice (env : Env) (by_ : Actor) (id : Bytes) : Tx Unit := do
  let db ← get
  match db.devices.change id (fun d => d.live) (DeviceRow.revoke (env.clock 0)) with
  | some devices => do
    set { db with devices := devices }
    audit svc (env.clock 1) by_ "device.revoked" id []
  | none => refuse ((db.devices.lookup id).isNone = true) .notFound

def disconnect (env : Env) (token : Bytes) : Tx Unit := do
  refuse (badToken token = true) .deviceInvalid
  let now := env.clock 0
  let db ← get
  let found ← need (activeDevice svc now token db) .deviceInvalid
  set { db with devices := db.devices.insert found.1 (found.2.revoke now) }
  audit svc (env.clock 1) ⟨.device, found.1⟩ "device.disconnected" found.1 []

/-! Rate limits. -/

def maxRateKeyLength : Nat := 256

def RateRow.next (now seconds : Int) : Option RateRow → RateRow
  | none => ⟨now, seconds, 1⟩
  | some r => if r.windowStartedAt + r.windowSeconds ≤ now then ⟨now, seconds, 1⟩
      else ⟨r.windowStartedAt, seconds, r.attempts + 1⟩

/-- `window` is in nanoseconds. -/
def rateLimit (env : Env) (key : Bytes) (limit window : Int) : Tx RateDecision := do
  refuse (key = [] ∨ key.length > maxRateKeyLength ∨ limit ≤ 0 ∨ window < 1000000000) .invalidInput
  let seconds := window.tdiv 1000000000
  let now := env.clock 0
  let db ← get
  let row := RateRow.next now seconds (db.rateLimits.lookup key)
  set { db with rateLimits := db.rateLimits.insert key row }
  pure ⟨decide (row.attempts ≤ limit), max (limit - row.attempts) 0,
    max (row.windowStartedAt + seconds - now) 1⟩

def resetRateLimit (key : Bytes) : Tx Unit :=
  modify fun db => { db with rateLimits := db.rateLimits.erase key }

/-! Maintenance. -/

-- retentions, in seconds
def pairingRetention : Int := 24 * 3600
def deviceRetention : Int := 30 * 24 * 3600
def holderRetention : Int := 30 * 24 * 3600

/-- `expiredDevices` with its parameter. -/
def DeviceRow.expired (cutoff : Int) (d : DeviceRow) : Bool :=
  d.revokedAt.any (· < cutoff) || decide (d.expiresAt < cutoff)

/-- `COALESCE(used_at, cancelled_at, expires_at)`. -/
def PairingRow.endedAt (p : PairingRow) : Int := (p.usedAt.or p.cancelledAt).getD p.expiresAt

/-- The pairings that go; the device's condition has the pairings' cutoff, since the query
    gives both the same parameter. -/
def Db.stalePairing (db : Db) (cutoff : Int) (p : PairingRow) : Bool :=
  decide (p.endedAt < cutoff) ||
    p.deviceID.any fun id => (db.devices.lookup id).any (DeviceRow.expired cutoff)

/-- `DELETE FROM devices WHERE`. -/
def deleteDevices (p : DeviceRow → Bool) : Tx Nat := do
  let db ← get
  refuse ((db.pairings.find? fun _ q => q.deviceID.any fun id =>
    (db.devices.lookup id).any p).isSome = true) .foreignKey
  set { db with devices := db.devices.deleteWhere fun _ d => p d }
  pure (db.devices.count fun _ d => p d)

/-- Whether a device or a pairing is the holder's. -/
def Db.referred (db : Db) (holder : Holder) : Bool :=
  (db.devices.find? fun _ d => d.holder == holder).isSome ||
    (db.pairings.find? fun _ p => p.holder == holder).isSome

/-- A holder that was removed before the cutoff and that nothing refers to. -/
def Db.forgotten (db : Db) (cutoff : Int) (holder : Holder) (removedAt : Option Int) : Bool :=
  removedAt.any (· < cutoff) && !db.referred holder

/-- `DELETE FROM owners`; the sessions and setup tokens of an owner go along. -/
def deleteOwners (cutoff : Int) : Tx Nat := do
  let db ← get
  let due := fun id (o : Owner) => db.forgotten cutoff (.owner id) o.removedAt
  refuse ((db.owners.find? fun id o => due id o && db.referred (.owner id)).isSome = true) .foreignKey
  let gone := fun id => (db.owners.lookup id).any (due id)
  set { db with
    owners := db.owners.deleteWhere due
    sessions := db.sessions.deleteWhere fun _ s => gone s.ownerID
    setupTokens := db.setupTokens.deleteWhere fun _ t => t.purpose.owner.any gone }
  pure (db.owners.count due)

def deleteMembers (cutoff : Int) : Tx Nat := do
  let db ← get
  let due := fun id (m : Member) => db.forgotten cutoff (.member id) m.removedAt
  refuse ((db.members.find? fun id m => due id m && db.referred (.member id)).isSome = true)
    .foreignKey
  set { db with members := db.members.deleteWhere due }
  pure (db.members.count due)

def maintain (env : Env) : Tx MaintenanceReport := do
  let now := env.clock 0
  let db ← get
  let pairingCutoff := now - pairingRetention
  set { db with
    sessions := db.sessions.deleteWhere fun _ s => decide (s.expiresAt ≤ now)
    setupTokens := db.setupTokens.deleteWhere fun _ t => decide (t.expiresAt ≤ now) || t.usedAt.isSome
    pairings := db.pairings.deleteWhere fun _ p => db.stalePairing pairingCutoff p }
  let devices ← deleteDevices (DeviceRow.expired (now - deviceRetention))
  modify fun db => { db with
    rateLimits := db.rateLimits.deleteWhere fun _ r =>
      decide (r.windowStartedAt + r.windowSeconds ≤ now) }
  let owners ← deleteOwners (now - holderRetention)
  let members ← deleteMembers (now - holderRetention)
  pure ⟨db.sessions.count fun _ s => decide (s.expiresAt ≤ now),
    db.setupTokens.count fun _ t => decide (t.expiresAt ≤ now) || t.usedAt.isSome,
    db.pairings.count fun _ p => db.stalePairing pairingCutoff p, devices,
    db.rateLimits.count fun _ r => decide (r.windowStartedAt + r.windowSeconds ≤ now),
    owners + members⟩

end Sesame.Selfhost
