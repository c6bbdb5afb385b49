import SesameServer.Lib.Encoding
import SesameServer.Lib.ReadCommitted

/- The account tables of the hosted server in Postgres and the statements of four calls on
   them (`internal/accounts/security.go`, `webauthn.go`, `accounts.go`, the migrations).

   1. `Tables`, `Change` — the rows, and what a statement does to them. A statement that
      deletes names the rows it found; one that updates names the keys it found.
   2. `RowLock` — Postgres row locks. An inserted key is locked against a second insert
      of it, and the row a foreign key points at is locked FOR KEY SHARE.
   3. `verifyEmail`, `addCredential`, `createDesktopLink`, `redeemDesktopLink` — the calls,
      statement by statement. `now` is NOW(), the time the transaction began.
   4. `engine` — the database that runs them. -/
namespace Sesame.Accounts
open ReadCommitted

/-! Rows. -/

inductive TokenPurpose where
  | verifyEmail | recoverPassword | changeEmail
  deriving DecidableEq

structure Account where
  id : Bytes
  email : Bytes
  passwordHash : Bytes
  emailVerifiedAt : Option Int
  betaAccess : Bool
  securityGeneration : Nat
  suspendedAt : Option Int
  deriving DecidableEq

structure AccountToken where
  tokenHash : Bytes
  accountID : Bytes
  purpose : TokenPurpose
  payload : Bytes
  expiresAt : Int
  usedAt : Option Int
  securityGeneration : Nat
  deriving DecidableEq

structure Session where
  id : Bytes
  tokenHash : Bytes
  accountID : Bytes
  expiresAt : Int
  label : Bytes
  authenticatedAt : Int
  lastSeenAt : Int
  deriving DecidableEq

structure Credential where
  credentialID : Bytes
  accountID : Bytes
  credential : Bytes
  name : Bytes
  createdAt : Int
  deriving DecidableEq

structure Connection where
  tokenHash : Bytes
  accountID : Bytes
  deviceID : Bytes
  deviceName : Bytes
  expiresAt : Int
  lastSeenAt : Int
  createdAt : Int
  deriving DecidableEq

structure LinkCode where
  id : Bytes
  codeHash : Bytes
  accountID : Bytes
  expiresAt : Int
  createdAt : Int
  usedAt : Option Int
  cancelledAt : Option Int
  connectedDeviceID : Option Bytes
  securityGeneration : Nat
  deriving DecidableEq

structure Tables where
  accounts : List Account
  tokens : List AccountToken
  sessions : List Session
  credentials : List Credential
  connections : List Connection
  codes : List LinkCode
  deriving DecidableEq

def Tables.account (t : Tables) (id : Bytes) : Option Account :=
  t.accounts.find? fun row => row.id == id

/-! What statements do to rows. -/

inductive Change where
  | setVerified (id : Bytes) (time : Int)
  | nextGeneration (id : Bytes)
  | clearPassword (id : Bytes)
  | setPassword (id passwordHash : Bytes)
  | setEmail (id email : Bytes) (time : Int)
  | insertToken (row : AccountToken)
  | useToken (tokenHash : Bytes) (time : Int)
  | deleteTokens (rows : List AccountToken)
  | insertSession (row : Session)
  | deleteSessions (rows : List Session)
  | insertCredential (row : Credential)
  | deleteCredentials (rows : List Credential)
  | insertConnection (row : Connection)
  | deleteConnections (rows : List Connection)
  | insertCode (row : LinkCode)
  | cancelCodes (codeHashes : List Bytes) (time : Int)
  | useCode (codeHash : Bytes) (time : Int)
  | connectCode (id deviceID : Bytes)
  deriving DecidableEq

def updateRows {α : Type} (p : α → Bool) (f : α → α) (rows : List α) : List α :=
  rows.map fun row => if p row then f row else row

def deleteRows {α : Type} [DecidableEq α] (gone : List α) (rows : List α) : List α :=
  rows.filter fun row => row ∉ gone

def Tables.onAccount (t : Tables) (id : Bytes) (f : Account → Account) : Tables :=
  { t with accounts := updateRows (·.id == id) f t.accounts }

def Tables.onCodes (t : Tables) (p : LinkCode → Bool) (f : LinkCode → LinkCode) : Tables :=
  { t with codes := updateRows p f t.codes }

def Change.apply (c : Change) (t : Tables) : Tables :=
  match c with
  | .setVerified id time => t.onAccount id fun row => { row with emailVerifiedAt := some time }
  | .nextGeneration id =>
    t.onAccount id fun row => { row with securityGeneration := row.securityGeneration + 1 }
  | .clearPassword id => t.onAccount id fun row => { row with passwordHash := [] }
  | .setPassword id passwordHash =>
    t.onAccount id fun row => { row with passwordHash := passwordHash }
  | .setEmail id email time =>
    t.onAccount id fun row => { row with email := email, emailVerifiedAt := some time }
  | .insertToken row => { t with tokens := t.tokens ++ [row] }
  | .useToken tokenHash time =>
    let used : AccountToken → AccountToken := fun row => { row with usedAt := some time }
    { t with tokens := updateRows (·.tokenHash == tokenHash) used t.tokens }
  | .deleteTokens rows => { t with tokens := deleteRows rows t.tokens }
  | .insertSession row => { t with sessions := t.sessions ++ [row] }
  | .deleteSessions rows => { t with sessions := deleteRows rows t.sessions }
  | .insertCredential row => { t with credentials := t.credentials ++ [row] }
  | .deleteCredentials rows => { t with credentials := deleteRows rows t.credentials }
  | .insertConnection row => { t with connections := t.connections ++ [row] }
  | .deleteConnections rows => { t with connections := deleteRows rows t.connections }
  | .insertCode row => { t with codes := t.codes ++ [row] }
  | .cancelCodes codeHashes time =>
    t.onCodes (codeHashes.contains ·.codeHash) fun row => { row with cancelledAt := some time }
  | .useCode codeHash time =>
    t.onCodes (·.codeHash == codeHash) fun row => { row with usedAt := some time }
  | .connectCode id deviceID =>
    t.onCodes (·.id == id) fun row => { row with connectedDeviceID := some deviceID }

/-! Locks. -/

/-- What a lock is on: a row, by one of its unique keys. -/
inductive Resource where
  | account (id : Bytes)
  | email (email : Bytes)
  | token (tokenHash : Bytes)
  | session (tokenHash : Bytes)
  | sessionID (id : Bytes)
  | credential (credentialID : Bytes)
  | connection (tokenHash : Bytes)
  | device (deviceID : Bytes)
  | code (codeHash : Bytes)
  | link (id : Bytes)
  deriving DecidableEq

/-- FOR KEY SHARE, FOR SHARE, FOR NO KEY UPDATE and FOR UPDATE. -/
inductive LockMode where
  | keyShare | share | noKeyUpdate | update
  deriving DecidableEq

structure RowLock where
  resource : Resource
  mode : LockMode
  deriving DecidableEq

/-- The table of conflicting row locks. -/
def LockMode.conflict : LockMode → LockMode → Bool
  | .keyShare, .update => true
  | .keyShare, _ => false
  | .share, .keyShare => false
  | .share, .share => false
  | .share, _ => true
  | .noKeyUpdate, .keyShare => false
  | .noKeyUpdate, _ => true
  | .update, _ => true

def RowLock.conflict (l m : RowLock) : Bool :=
  l.resource == m.resource && l.mode.conflict m.mode

theorem RowLock.conflict_symm (l m : RowLock) : l.conflict m = m.conflict l := by
  obtain ⟨r, x⟩ := l
  obtain ⟨r', y⟩ := m
  unfold conflict
  rw [Bool.beq_comm]
  cases x <;> cases y <;> rfl

/-! Statements. -/

inductive Err where
  | notFound | tokenExpired | passwordIncorrect | securityStateChanged | emailUnverified | emailTaken
  /-- `sql.ErrNoRows`, passed on as it is. -/
  | noRows
  /-- A unique key or foreign key in the way. -/
  | constraint
  deriving DecidableEq

structure User where
  id : Bytes
  email : Bytes
  emailVerified : Bool
  betaAccess : Bool
  deriving DecidableEq

structure DesktopConnection where
  accountID : Bytes
  deviceID : Bytes
  deviceName : Bytes
  connectedAt : Int
  lastSeenAt : Int
  expiresAt : Int
  protocolVersion : Nat
  deriving DecidableEq

inductive Reply where
  | added
  | linked
  | connected (connection : DesktopConnection)
  | verified (user : User)
  | replaced (linkID : Bytes) (createdAt expiresAt : Int)
  | changeCreated
  | emailChanged (user : User) (previousEmail : Bytes)
  | passwordChanged
  | passwordReset (user : User)
  | revoked
  deriving DecidableEq

abbrev Sql (α : Type) := Program Tables Change RowLock Err α

/-- `SELECT`: no row changes; a missing row is the given error. -/
def select {α : Type} (locks : List RowLock) (read : Tables → Option α) (missing : Err) : Sql α :=
  .stmt (fun _ => locks) (fun _ => []) fun t => match read t with
    | some a => .ok a
    | none => .error missing

/-- `UPDATE` or `DELETE` that goes on whatever it found. -/
def exec (locks : Tables → List RowLock) (change : Tables → Change) : Sql Unit :=
  .stmt locks (fun t => [change t]) fun _ => .ok ()

/-- `INSERT`: its keys must be new and the account it points at must exist. -/
def insert (keys : List Resource) (accountID : Bytes) (taken : Tables → Bool) (change : Change) :
    Sql Unit :=
  .stmt (fun _ => ⟨.account accountID, .keyShare⟩ :: keys.map (⟨·, .update⟩)) (fun _ => [change])
    fun t => if taken t || (t.account accountID).isNone then .error .constraint else .ok ()

def provided (c : Bool) (act : Sql Unit) : Sql Unit := if c then act else pure ()

def checked {α : Type} : Except Err α → Sql α
  | .ok a => pure a
  | .error e => .fail e

/-! The calls that add, statement by statement. -/

def addCredential (accountID credentialID credential name : Bytes) (now : Int) : Sql Reply := do
  insert [.credential credentialID] accountID
    (fun t => t.credentials.any (·.credentialID == credentialID))
    (.insertCredential ⟨credentialID, accountID, credential, name, now⟩)
  return .added

def insertCode (id accountID codeHash : Bytes) (expiresAt createdAt : Int) (generation : Nat) :
    Sql Unit :=
  insert [.code codeHash, .link id] accountID
    (fun t => t.codes.any fun row => row.codeHash == codeHash || row.id == id)
    (.insertCode ⟨id, codeHash, accountID, expiresAt, createdAt, none, none, none, generation⟩)

/-- INSERT … SELECT: the code takes the generation that the statement found. The insert may
    wait after that, for a key or for the account's row, and keeps what was found. -/
def createDesktopLink (id accountID codeHash : Bytes) (expiresAt now : Int) : Sql Reply := do
  let generation ← select [] (fun t => (t.account accountID).map (·.securityGeneration)) .notFound
  insertCode id accountID codeHash expiresAt now generation
  return .linked

def redeemDesktopLink (codeHash deviceName tokenHash : Bytes) (expiresAt : Int) (deviceID : Bytes)
    (clock now : Int) : Sql Reply := do
  let candidateAccountID ← select []
    (fun t => (t.codes.find? (·.codeHash == codeHash)).map (·.accountID)) .notFound
  let generation ← select [⟨.account candidateAccountID, .share⟩]
    (fun t => (t.account candidateAccountID).map (·.securityGeneration)) .notFound
  let usable : LinkCode → Bool := fun row => row.codeHash == codeHash && row.expiresAt > now &&
    row.usedAt.isNone && row.cancelledAt.isNone && row.securityGeneration == generation
  let code ← .stmt (fun _ => [⟨.code codeHash, .noKeyUpdate⟩]) (fun _ => [.useCode codeHash now])
    fun t => match t.codes.find? usable with
      | some row => .ok row
      | none => .error .notFound
  insert [.connection tokenHash, .device deviceID] code.accountID
    (fun t => t.connections.any fun row => row.tokenHash == tokenHash || row.deviceID == deviceID)
    (.insertConnection
      ⟨tokenHash, code.accountID, deviceID, deviceName, expiresAt, clock, now⟩)
  exec (fun _ => [⟨.link code.id, .noKeyUpdate⟩]) fun _ => .connectCode code.id deviceID
  return .connected ⟨code.accountID, deviceID, deviceName, clock, clock, expiresAt, 1⟩

/-! `VerifyEmail`. -/

structure TokenSessionRotation where
  tokenHash : Bytes
  sessionTokenHash : Bytes
  sessionExpiresAt : Int
  sessionLabel : Bytes
  authenticatedAt : Int
  confirmPassword : Bytes
  deriving DecidableEq

/-- `token_hash = $1 AND purpose = $2 AND used_at IS NULL AND expires_at > $3`. -/
def AccountToken.usable (tokenHash : Bytes) (purpose : TokenPurpose) (now : Int)
    (row : AccountToken) : Bool :=
  row.tokenHash == tokenHash && row.purpose == purpose && row.usedAt.isNone && row.expiresAt > now

def lockAccountForToken (tokenHash : Bytes) (purpose : TokenPurpose) (now : Int) : Sql Bytes := do
  let accountID ← select []
    (fun t => (t.tokens.find? (AccountToken.usable tokenHash purpose now)).map (·.accountID))
    .tokenExpired
  select [⟨.account accountID, .noKeyUpdate⟩] (fun t => (t.account accountID).map (·.id))
    .tokenExpired

def consumeAccountToken (tokenHash : Bytes) (purpose : TokenPurpose) (now : Int) :
    Sql (Bytes × Bytes) :=
  .stmt (fun _ => [⟨.token tokenHash, .noKeyUpdate⟩]) (fun _ => [.useToken tokenHash now])
    fun t => match t.tokens.find? (AccountToken.usable tokenHash purpose now) with
      | some row => .ok (row.accountID, row.payload)
      | none => .error .tokenExpired

def deletePendingAccountTokens (accountID : Bytes) (purpose : TokenPurpose) : Sql Unit :=
  let found : Tables → List AccountToken := fun t => t.tokens.filter fun row =>
    row.accountID == accountID && row.purpose == purpose && row.usedAt.isNone
  exec (fun t => (found t).map (⟨.token ·.tokenHash, .update⟩)) fun t => .deleteTokens (found t)

/-- `UPDATE sesame_desktop_link_codes SET cancelled_at = NOW()` for the account's codes that
    are neither used nor cancelled and meet `p`. -/
def cancelLinkCodes (accountID : Bytes) (p : Tables → LinkCode → Bool) (now : Int) : Sql Unit :=
  let found : Tables → List Bytes := fun t => (t.codes.filter fun row =>
    row.accountID == accountID && row.usedAt.isNone && row.cancelledAt.isNone && p t row).map
      (·.codeHash)
  exec (fun t => (found t).map (⟨.code ·, .noKeyUpdate⟩)) fun t => .cancelCodes (found t) now

def invalidatePendingCapabilities (accountID : Bytes) (now : Int) : Sql Unit := do
  .stmt (fun _ => [⟨.account accountID, .noKeyUpdate⟩]) (fun _ => [.nextGeneration accountID])
    fun t => if (t.account accountID).isSome then .ok () else .error .notFound
  cancelLinkCodes accountID (fun _ _ => true) now
  deletePendingAccountTokens accountID .changeEmail

/-- `COALESCE((SELECT email_verified_at FROM sesame_accounts WHERE id = $1), NOW())`. -/
def cutoff (accountID : Bytes) (now : Int) (t : Tables) : Int :=
  ((t.account accountID).bind (·.emailVerifiedAt)).getD now

/-- Passkeys and desktop connections from before the cutoff go, link codes are cancelled. -/
def revokeEarlier (accountID : Bytes) (now : Int) : Sql Unit := do
  let credentials : Tables → List Credential := fun t => t.credentials.filter fun row =>
    row.accountID == accountID && row.createdAt < cutoff accountID now t
  exec (fun t => (credentials t).map (⟨.credential ·.credentialID, .update⟩)) fun t =>
    .deleteCredentials (credentials t)
  let connections : Tables → List Connection := fun t => t.connections.filter fun row =>
    row.accountID == accountID && row.createdAt < cutoff accountID now t
  exec (fun t => (connections t).map (⟨.connection ·.tokenHash, .update⟩)) fun t =>
    .deleteConnections (connections t)
  cancelLinkCodes accountID (fun t row => row.createdAt < cutoff accountID now t) now

def deleteSessions (accountID : Bytes) : Sql Unit :=
  let found : Tables → List Session := fun t => t.sessions.filter (·.accountID == accountID)
  exec (fun t => (found t).map (⟨.session ·.tokenHash, .update⟩)) fun t => .deleteSessions (found t)

def revokePreVerificationCredentials (accountID : Bytes) (accountWasVerified : Bool) (now : Int) :
    Sql Unit := do
  deleteSessions accountID
  provided (!accountWasVerified) (revokeEarlier accountID now)

def insertSession (id accountID tokenHash : Bytes) (expiresAt : Int) (label : Bytes)
    (authenticatedAt : Int) : Sql Unit :=
  let label := if label.isEmpty then utf8 "Browser" else label
  insert [.session tokenHash, .sessionID id] accountID
    (fun t => t.sessions.any fun row => row.tokenHash == tokenHash || row.id == id)
    (.insertSession ⟨id, tokenHash, accountID, expiresAt, label, authenticatedAt, authenticatedAt⟩)

/-- The database, given what its callers do. -/
def engineOf {τ : Type} (program : τ → Int → Sql Reply) :
    Engine τ Tables Change RowLock Err Reply where
  program := program
  apply := Change.apply
  conflict := RowLock.conflict
  symm := RowLock.conflict_symm

section
variable (verifyPassword : Bytes → Bytes → Bool)

/-- Whether the password of the registration stays: only for a verifier who knows it. -/
def keepsPassword (wasVerified : Bool) (registrationHash confirmPassword : Bytes) :
    Except Err Bool :=
  if !wasVerified && !confirmPassword.isEmpty then
    if registrationHash.isEmpty then .error .passwordIncorrect
    else if !verifyPassword registrationHash confirmPassword then .error .passwordIncorrect
    else .ok true
  else .ok false

def verifyEmail (input : TokenSessionRotation) (sessionID : Bytes) (now : Int) : Sql Reply := do
  let accountID ← lockAccountForToken input.tokenHash .verifyEmail input.authenticatedAt
  let _ ← consumeAccountToken input.tokenHash .verifyEmail input.authenticatedAt
  let (wasVerified, registrationHash) ← select [⟨.account accountID, .noKeyUpdate⟩]
    (fun t => (t.account accountID).map fun row => (row.emailVerifiedAt.isSome, row.passwordHash))
    .noRows
  let keepPassword ←
    checked (keepsPassword verifyPassword wasVerified registrationHash input.confirmPassword)
  let user ← .stmt (fun _ => [⟨.account accountID, .noKeyUpdate⟩])
    (fun t => [.setVerified accountID (cutoff accountID now t)])
    fun t => match t.account accountID with
      | some row => .ok (⟨row.id, row.email, true, row.betaAccess⟩ : User)
      | none => .error .noRows
  provided (!wasVerified) (invalidatePendingCapabilities accountID now)
  revokePreVerificationCredentials accountID wasVerified now
  provided (!wasVerified && !keepPassword) <|
    exec (fun _ => [⟨.account accountID, .noKeyUpdate⟩]) fun _ => .clearPassword accountID
  insertSession sessionID accountID input.sessionTokenHash input.sessionExpiresAt
    input.sessionLabel input.authenticatedAt
  return .verified user

/-- A call, with the fresh identifiers and the clock reading it draws. -/
inductive Task where
  | addCredential (accountID credentialID credential name : Bytes)
  | createDesktopLink (id accountID codeHash : Bytes) (expiresAt : Int)
  | redeemDesktopLink (codeHash deviceName tokenHash : Bytes) (expiresAt : Int) (deviceID : Bytes)
      (clock : Int)
  | verifyEmail (input : TokenSessionRotation) (sessionID : Bytes)
  deriving DecidableEq

def Task.program (task : Task) (now : Int) : Sql Reply :=
  match task with
  | .addCredential accountID credentialID credential name =>
    Accounts.addCredential accountID credentialID credential name now
  | .createDesktopLink id accountID codeHash expiresAt =>
    Accounts.createDesktopLink id accountID codeHash expiresAt now
  | .redeemDesktopLink codeHash deviceName tokenHash expiresAt deviceID clock =>
    Accounts.redeemDesktopLink codeHash deviceName tokenHash expiresAt deviceID clock now
  | .verifyEmail input sessionID => Accounts.verifyEmail verifyPassword input sessionID now

def engine : Engine Task Tables Change RowLock Err Reply := engineOf (Task.program verifyPassword)

end

end Sesame.Accounts
