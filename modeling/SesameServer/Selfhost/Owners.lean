import SesameServer.Selfhost.Tables

/- The calls about owners (`internal/selfhost/sqlitestore/owners.go`) and the codes of
   `internal/authkit/totp.go`.

   A call that writes is a transaction. `CompleteSetup`, `Login` and `StepUp` read and check
   before they open theirs, so each of them is in parts: what it reads (`findToken`,
   `ownerCredentials`, `session`), what it makes of that (`prepareSetup`, `prepareLogin`,
   `prepareStepUp`), and what it writes (`commitSetup`, `commitLogin`, `commitStepUp`). -/
namespace Sesame.Selfhost
open Outcome

/-! Replies. -/

structure OwnerInfo where
  id : Bytes
  name : Bytes
  createdAt : Int
  lastLoginAt : Option Int
  setupPending : Bool
  deriving DecidableEq

structure SetupIssue where
  owner : Option OwnerInfo
  token : Bytes
  expiresAt : Int
  deriving DecidableEq

structure SetupDetails where
  totpSecret : Bytes
  ownerName : Bytes
  firstOwner : Bool
  expiresAt : Int
  deriving DecidableEq

structure OwnerSession where
  id : Bytes
  owner : OwnerInfo
  createdAt : Int
  expiresAt : Int
  recentAuthAt : Int
  csrfToken : Bytes
  deriving DecidableEq

structure OwnerLogin where
  token : Bytes
  session : OwnerSession
  deriving DecidableEq

structure CompleteSetupInput where
  token : Bytes
  name : Bytes
  password : Bytes
  code : Bytes
  userAgent : Bytes
  updateChecks : Option Bool
  deriving DecidableEq

structure LoginInput where
  name : Bytes
  password : Bytes
  code : Bytes
  userAgent : Bytes
  deriving DecidableEq

structure StepUpInput where
  sessionToken : Bytes
  password : Bytes
  code : Bytes
  deriving DecidableEq

variable (svc : Service)

/-! Codes. -/

/-- `strconv.Atoi`. -/
def atoi (s : Bytes) : Option Int :=
  let digits := if s.head? == some 43 || s.head? == some 45 then s.tail else s
  if digits.isEmpty || digits.any (fun b => b < 48 || b > 57) then none
  else if s.head? == some 45 then some (-(Encoding.spelt digits : Int))
  else some (Encoding.spelt digits)

/-- `authkit.VerifyTOTP`, over how secrets are decoded and digests truncated. -/
def verifyTOTP (decodeSecret : Bytes → Option Bytes) (truncate : Bytes → Int → Nat)
    (secret code : Bytes) (now : Int) : Option Int := do
  let code := Utf8.trimSpace code
  if code.length ≠ 6 then none
  else
    let want ← atoi code
    let decoded ← decodeSecret secret
    let baseCounter := now.tdiv 30
    [baseCounter - 1, baseCounter, baseCounter + 1].find? fun candidate =>
      (truncate decoded candidate : Int) == want

/-! Issuing setup tokens. -/

def countActiveOwners (db : Db) (excludeID : Bytes) : Nat :=
  db.owners.count fun id o => o.active && id != excludeID

def OwnerInfo.of (id : Bytes) (o : Owner) : OwnerInfo :=
  ⟨id, o.name, o.createdAt, o.lastLoginAt, o.credential.isNone⟩

def readOwner (id : Bytes) : Tx OwnerInfo := do
  let db ← get
  let o ← need ((db.owners.lookup id).filter fun o => o.removedAt.isNone) .notFound
  pure (.of id o)

def readIssued (purpose : Purpose) : Tx (Option OwnerInfo) :=
  match purpose.owner with
  | none => pure none
  | some owner => do
    let info ← readOwner owner
    pure (some info)

def insertSetupToken (now : Int) (id token : Bytes) (purpose : Purpose) (by_ : Actor) :
    Tx SetupIssue := do
  let expires := now + setupTokenTTL
  let hash := svc.hashToken token
  let db ← get
  refuse (purpose.owner.any (fun owner => (db.owners.lookup owner).isNone) = true) .foreignKey
  let tokens ← need (db.setupTokens.insertNew id
    ⟨hash, purpose, none, by_.string, now, expires, none⟩ fun t => t.tokenHash == hash) .unique
  set { db with setupTokens := tokens }
  let owner ← readIssued purpose
  pure ⟨owner, token, expires⟩

def startFirstSetup (env : Env) : Tx SetupIssue := do
  let db ← get
  refuse (countActiveOwners db [] > 0) .conflict
  set { db with setupTokens := db.setupTokens.deleteWhere fun _ t =>
    t.purpose == Purpose.first && t.usedAt.isNone }
  let issue ← insertSetupToken svc (env.clock 0) (env.id 0) (env.token 0) .first SystemActor
  audit svc (env.clock 1) SystemActor "setup.started" (utf8 "instance") []
  pure issue

/-- The rows that `owners_active_name` keeps a name from. -/
def nameTaken (key : Bytes) (o : Owner) : Bool := o.removedAt.isNone && o.nameKey == key

def inviteOwner (env : Env) (by_ : Actor) (name : Bytes) : Tx SetupIssue := do
  let normalized ← need (normalizeName name) .invalidInput
  let id := env.id 0
  let key := svc.nameKey normalized
  let db ← get
  let owners ← need (db.owners.insertNew id ⟨normalized, key, none, 0, env.clock 0, none, none⟩
    (nameTaken key)) .conflict
  set { db with owners := owners }
  let issue ← insertSetupToken svc (env.clock 1) (env.id 1) (env.token 0) (.invite id) by_
  audit svc (env.clock 2) by_ "owner.invited" id [(utf8 "name", normalized)]
  pure issue

/-- `DELETE FROM sessions WHERE owner_id = ?` and the owner's unused setup tokens. -/
def dropAccess (db : Db) (id : Bytes) : Db :=
  { db with
    sessions := db.sessions.deleteWhere fun _ s => s.ownerID == id
    setupTokens := db.setupTokens.deleteWhere fun _ t =>
      t.purpose.owner == some id && t.usedAt.isNone }

/-- The issue, with the id of the owner that was reset. -/
def resetOwner (env : Env) (by_ : Actor) (name : Bytes) : Tx (Bytes × SetupIssue) := do
  let normalized ← need (normalizeName name) .invalidInput
  let db ← get
  let found ← need (db.owners.find? fun _ o => nameTaken (svc.nameKey normalized) o) .notFound
  let id := found.1
  set (dropAccess { db with owners := db.owners.updateWhere (fun k _ => k == id) fun o =>
    { o with credential := none } } id)
  let revoked ← revokeDevicesWhere (env.clock 0) (.owner id)
  cancelPairingsWhere (env.clock 0) (.owner id)
  let issue ← insertSetupToken svc (env.clock 1) (env.id 0) (env.token 0) (.reset id) by_
  audit svc (env.clock 2) by_ "owner.reset" id
    [(utf8 "name", normalized), (utf8 "revokedDevices", countText revoked)]
  pure (id, issue)

/-! Using them. -/

structure FoundToken where
  id : Bytes
  purpose : Purpose
  ownerName : Option Bytes
  secret : Option Bytes
  expiresAt : Int
  deriving DecidableEq

/-- `t.owner_id IS NULL OR (o.removed_at IS NULL AND o.password_hash IS NULL)`. -/
def ownerPending (db : Db) (purpose : Purpose) : Bool :=
  purpose.owner.all fun owner => (db.owners.lookup owner).all fun o =>
    o.removedAt.isNone && o.credential.isNone

/-- The first query of `findSetupToken`. -/
def findToken (now : Int) (token : Bytes) (db : Db) : Except Err FoundToken :=
  match db.setupTokens.find? fun _ t => t.tokenHash == svc.hashToken token && t.usedAt.isNone &&
      decide (now < t.expiresAt) && ownerPending db t.purpose with
  | none => .error .setupTokenInvalid
  | some (id, t) => .ok ⟨id, t.purpose, (t.purpose.owner.bind db.owners.lookup).map (·.name),
      t.totpSecret, t.expiresAt⟩

/-- The second: a first owner is not set up beside another. -/
def checkFirst (purpose : Purpose) (db : Db) : Except Err Unit :=
  check (purpose = .first ∧ countActiveOwners db [] > 0) .setupTokenInvalid

def findSetupToken (now : Int) (token : Bytes) (db : Db) : Except Err FoundToken := do
  let found ← findToken svc now token db
  checkFirst found.purpose db
  .ok found

/-- The secret of a token: the one it has, or a new one. -/
def tokenSecret (env : Env) (found : FoundToken) : Tx Bytes :=
  match found.secret with
  | some sealedSecret => need (svc.openSecret sealedSecret) .secretBroken
  | none => do
    modify fun db => { db with
      setupTokens := db.setupTokens.updateWhere (fun k _ => k == found.id)
        fun t => { t with totpSecret := some (svc.sealSecret env.secret env.nonce) } }
    pure env.secret

/-- The details, with the id of the token's row. -/
def setupDetails (env : Env) (token : Bytes) : Tx (Bytes × SetupDetails) := do
  refuse (badToken token = true) .setupTokenInvalid
  let db ← get
  let found ← lift (findSetupToken svc (env.clock 0) token db)
  let secret ← tokenSecret svc env found
  pure (found.id, ⟨secret, found.ownerName.getD [], found.purpose == .first, found.expiresAt⟩)

def setupOwnerName (found : FoundToken) (requested : Bytes) : Except Err Bytes :=
  let name := found.ownerName.getD []
  let trimmed := Utf8.trimSpace requested
  if found.purpose = .first then (normalizeName requested).elim (.error .invalidInput) .ok
  else if !trimmed.isEmpty && svc.nameKey trimmed != svc.nameKey name then .error .invalidInput
  else .ok name

/-- What `CompleteSetup` takes into its transaction. -/
structure PreparedSetup where
  input : CompleteSetupInput
  found : FoundToken
  name : Bytes
  secret : Bytes
  counter : Int
  passwordHash : Bytes
  deriving DecidableEq

def checkSetupInput (input : CompleteSetupInput) : Except Err Unit := do
  check (badToken input.token = true) .setupTokenInvalid
  check (validPassword input.password = false) .invalidInput

def prepareSetup (env : Env) (input : CompleteSetupInput) (found : FoundToken) :
    Except Err PreparedSetup := do
  let name ← setupOwnerName svc found input.name
  let secret ← found.secret.elim (.error .invalidCredentials) .ok
  let plain ← (svc.openSecret secret).elim (.error .secretBroken) .ok
  let counter ← (verifyTOTP svc.decodeSecret svc.truncate plain input.code (env.clock 1)).elim
    (.error .invalidCredentials) .ok
  .ok ⟨input, found, name, secret, counter, svc.hashPassword input.password env.salt⟩

def PreparedSetup.credential (p : PreparedSetup) : Credential := ⟨p.passwordHash, p.secret⟩

def maxAgent : Nat := 256

/-- A user agent as it is stored: cut off, without control characters. -/
def cleanAgent (userAgent : Bytes) : Bytes :=
  (Utf8.pieces (userAgent.take maxAgent)).flatMap fun
    | .ascii b => if b < 0x20 || b == 0x7f then [] else [b]
    | .wide bytes => bytes
    | .bad _ => Json.replacement

def csrfToken (sessionToken : Bytes) : Bytes :=
  Encoding.encode (svc.sha256 (utf8 "sesame-selfhost-csrf-v1\n" ++ sessionToken))

def createSession (now : Int) (id token ownerID userAgent : Bytes) : Tx OwnerLogin := do
  let hash := svc.hashToken token
  let expires := now + svc.sessionTTL
  let db ← get
  refuse ((db.owners.lookup ownerID).isNone = true) .foreignKey
  let sessions ← need (db.sessions.insertNew id
    ⟨hash, ownerID, cleanAgent userAgent, now, expires, now⟩ fun s => s.tokenHash == hash) .unique
  set { db with sessions := sessions }
  let owner ← readOwner ownerID
  pure ⟨token, ⟨id, owner, now, expires, now, csrfToken svc token⟩⟩

/-- The owner's row: a new one for the first owner, else the one that waits for it. -/
def installOwner (env : Env) (p : PreparedSetup) : Tx Bytes :=
  let now := env.clock 0
  match p.found.purpose.owner with
  | none => do
    let db ← get
    refuse (countActiveOwners db [] > 0) .setupTokenInvalid
    let key := svc.nameKey p.name
    let owners ← need (db.owners.insertNew (env.id 0)
      ⟨p.name, key, some p.credential, p.counter, now, some now, none⟩ (nameTaken key)) .conflict
    set { db with owners := owners }
    pure (env.id 0)
  | some owner => do
    let db ← get
    let owners ← need (db.owners.change owner (fun o => o.removedAt.isNone && o.credential.isNone)
      fun o => { o with
        credential := some p.credential, totpLastCounter := p.counter, lastLoginAt := some now })
      .setupTokenInvalid
    set { db with owners := owners }
    pure owner

/-- The choice of updates, if the first owner made one. -/
def chooseUpdates (env : Env) (p : PreparedSetup) (actor : Actor) : Tx Unit :=
  forSome (if p.found.purpose = .first then p.input.updateChecks else none)
    (chooseUpdatesAtSetup (fun enabled => modify fun db => { db with updateChecks := some enabled })
      fun action => audit svc (env.clock 3) actor action (utf8 "instance"))

/-- The transaction of `CompleteSetup`; the owner's id and the reply. -/
def commitSetup (env : Env) (p : PreparedSetup) : Tx (Bytes × OwnerLogin) := do
  let now := env.clock 0
  let db ← get
  let tokens ← need (db.setupTokens.change p.found.id
    (fun t => t.usedAt.isNone && decide (now < t.expiresAt)) fun t => { t with usedAt := some now })
    .setupTokenInvalid
  set { db with setupTokens := tokens }
  let ownerID ← installOwner svc env p
  let login ← createSession svc (env.clock 1) (env.id 1) (env.token 0) ownerID p.input.userAgent
  let actor : Actor := ⟨.owner, ownerID⟩
  audit svc (env.clock 2) actor "owner.setup_completed" ownerID
    [(utf8 "name", p.name), (utf8 "kind", p.found.purpose.kind)]
  chooseUpdates svc env p actor
  pure (ownerID, login)

/-! Signing in. -/

structure Credentials where
  id : Bytes
  name : Bytes
  credential : Credential
  lastCounter : Int
  deriving DecidableEq

/-- The owner that meets `where_`, if it is not removed and has a password. -/
def ownerCredentials (db : Db) (where_ : Bytes → Owner → Bool) : Option Credentials := do
  let (id, o) ← db.owners.find? fun id o => o.active && where_ id o
  let credential ← o.credential
  some ⟨id, o.name, credential, o.totpLastCounter⟩

def verifyCredentials (now : Int) (found : Credentials) (password code : Bytes) :
    Except Err Int := do
  let plain ← (svc.openSecret found.credential.totpSecret).elim (.error .secretBroken) .ok
  check (svc.verifyPassword found.credential.passwordHash password = false) .invalidCredentials
  let counter ← (verifyTOTP svc.decodeSecret svc.truncate plain code now).elim
    (.error .invalidCredentials) .ok
  check (counter ≤ found.lastCounter) .replayedCode
  .ok counter

/-- `consumeCounter`; a login also notes its time. -/
def consumeCounter (found : Credentials) (counter : Int) (loginAt : Option Int) : Tx Unit := do
  let db ← get
  let owners ← need (db.owners.change found.id
    (fun o => decide (o.totpLastCounter < counter) &&
      (o.credential.map (·.passwordHash)) == some found.credential.passwordHash &&
      o.removedAt.isNone)
    fun o => { o with
      totpLastCounter := counter, lastLoginAt := loginAt.elim o.lastLoginAt some }) .replayedCode
  set { db with owners := owners }

structure PreparedLogin where
  input : LoginInput
  found : Credentials
  counter : Int
  deriving DecidableEq

def prepareLogin (env : Env) (input : LoginInput) (db : Db) : Except Err PreparedLogin := do
  let name ← (normalizeName input.name).elim (.error .invalidCredentials) .ok
  check (input.password.length > maxPasswordLength ∨ input.code.length > 16) .invalidCredentials
  let found ← (ownerCredentials db fun _ o => o.nameKey == svc.nameKey name).elim
    (.error .invalidCredentials) .ok
  let counter ← verifyCredentials svc (env.clock 0) found input.password input.code
  .ok ⟨input, found, counter⟩

def commitLogin (env : Env) (p : PreparedLogin) : Tx OwnerLogin := do
  consumeCounter p.found p.counter (some (env.clock 0))
  let login ← createSession svc (env.clock 1) (env.id 0) (env.token 0) p.found.id p.input.userAgent
  audit svc (env.clock 2) ⟨.owner, p.found.id⟩ "owner.login" p.found.id []
  pure login

def session (now : Int) (token : Bytes) (db : Db) : Except Err OwnerSession :=
  if badToken token then .error .sessionInvalid
  else match db.sessions.find? fun _ s => s.tokenHash == svc.hashToken token &&
      decide (now < s.expiresAt) && (db.owners.lookup s.ownerID).any (·.active) with
    | none => .error .sessionInvalid
    | some (id, s) =>
      match db.owners.lookup s.ownerID with
      | none => .error .sessionInvalid
      | some o => .ok ⟨id, ⟨s.ownerID, o.name, o.createdAt, o.lastLoginAt, false⟩, s.createdAt,
          s.expiresAt, s.recentAuthAt, csrfToken svc token⟩

structure PreparedStepUp where
  sessionID : Bytes
  found : Credentials
  counter : Int
  deriving DecidableEq

def checkStepUpInput (input : StepUpInput) : Except Err Unit :=
  check (input.password.length > maxPasswordLength ∨ input.code.length > 16) .invalidCredentials

/-- After the session: the owner's credentials are read and checked. -/
def prepareStepUp (env : Env) (input : StepUpInput) (current : OwnerSession) (db : Db) :
    Except Err PreparedStepUp := do
  let found ← (ownerCredentials db fun id _ => id == current.owner.id).elim
    (.error .sessionInvalid) .ok
  let counter ← verifyCredentials svc (env.clock 0) found input.password input.code
  .ok ⟨current.id, found, counter⟩

def commitStepUp (env : Env) (p : PreparedStepUp) : Tx Unit := do
  consumeCounter p.found p.counter none
  let now := env.clock 0
  let db ← get
  let sessions ← need (db.sessions.change p.sessionID (fun s => decide (now < s.expiresAt))
    fun s => { s with recentAuthAt := now }) .sessionInvalid
  set { db with sessions := sessions }
  audit svc (env.clock 1) ⟨.owner, p.found.id⟩ "owner.step_up" p.found.id []

def logout (token : Bytes) : Tx Unit :=
  onlyIf (badToken token = false) (modify fun db =>
    { db with sessions := db.sessions.deleteWhere fun _ s => s.tokenHash == svc.hashToken token })

/-! Removing. -/

def removeOwner (env : Env) (by_ : Actor) (id : Bytes) : Tx Unit := do
  let db ← get
  let o ← need ((db.owners.lookup id).filter fun o => o.removedAt.isNone) .notFound
  refuse (o.credential.isSome = true ∧ countActiveOwners db id = 0) .lastOwner
  let now := env.clock 0
  set (dropAccess { db with owners := db.owners.updateWhere (fun k _ => k == id) fun o =>
    { o with removedAt := some now, credential := none } } id)
  let revoked ← revokeDevicesWhere now (.owner id)
  cancelPairingsWhere now (.owner id)
  audit svc (env.clock 1) by_ "owner.removed" id [(utf8 "revokedDevices", countText revoked)]

/-- The reply and the tables of a call that is one transaction. -/
def write {α : Type} (x : Tx α) (db : Db) : Except Err (α × Db) :=
  match x db with
  | .ok a db' => .ok (a, db')
  | .error e _ => .error e

end Sesame.Selfhost
