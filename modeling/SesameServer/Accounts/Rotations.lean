import SesameServer.Accounts.Commits

/- The calls that issue and withdraw capabilities: link codes, address changes, and what
   invalidates both (`internal/accounts/security.go`, `desktop_links.go`).

   1. `createOrReplaceDesktopLink`, `createEmailChange` — issue under the account's lock, for
      the generation that the caller expects.
   2. `confirmEmailChange`, `changePassword`, `resetPassword`, `revokeAllSessions` — move the
      generation on.
   3. `SecurityTask`, `securityEngine` — the database that runs all eight calls.
   4. `Rotation`, `Disconnection` — what the second group does to an account, read back from a
      trace: its row is locked first, then its pending tokens and connections go. -/
namespace Sesame.Accounts
open ReadCommitted

/-! Statements. -/

def lockSecurityGeneration (accountID : Bytes) (expectedGeneration : Nat) : Sql Unit := do
  let generation ← select [⟨.account accountID, .noKeyUpdate⟩]
    (fun t => (t.account accountID).map (·.securityGeneration)) .notFound
  checked (if generation = expectedGeneration then .ok () else .error .securityStateChanged)

def deleteDesktopConnections (accountID : Bytes) : Sql Unit :=
  let found : Tables → List Connection := fun t => t.connections.filter (·.accountID == accountID)
  exec (fun t => (found t).map (⟨.connection ·.tokenHash, .update⟩)) fun t =>
    .deleteConnections (found t)

def userByID (accountID : Bytes) : Sql User :=
  select [] (fun t => (t.account accountID).map fun row =>
    ⟨row.id, row.email, row.emailVerifiedAt.isSome, row.betaAccess⟩) .notFound

/-- `UPDATE sesame_accounts SET password_hash = … WHERE id = … AND` a condition on the row. -/
def updatePassword (accountID passwordHash : Bytes) (p : Account → Bool) : Sql Unit :=
  .stmt (fun _ => [⟨.account accountID, .noKeyUpdate⟩])
    (fun _ => [.setPassword accountID passwordHash])
    fun t => if (t.account accountID).any p then .ok () else .error .notFound

/-- `UPDATE sesame_accounts SET email = …`: an address is a key, so a new one locks the row
    FOR UPDATE, and the address against another account that takes it. -/
def updateEmail (accountID email : Bytes) (time : Int) : Sql Unit :=
  .stmt (fun t =>
      let same := (t.account accountID).any (·.email == email)
      [⟨.account accountID, if same then .noKeyUpdate else .update⟩, ⟨.email email, .update⟩])
    (fun _ => [.setEmail accountID email time])
    fun t => if t.accounts.any (fun row => row.email == email && row.id != accountID) then
        .error .emailTaken
      else .ok ()

/-! The calls. -/

def createOrReplaceDesktopLink (id accountID : Bytes) (expectedGeneration : Nat) (codeHash : Bytes)
    (expiresAt clock now : Int) : Sql Reply := do
  lockSecurityGeneration accountID expectedGeneration
  cancelLinkCodes accountID (fun _ row => row.expiresAt > now) now
  insertCode id accountID codeHash expiresAt clock expectedGeneration
  return .replaced id clock expiresAt

def createEmailChange (accountID : Bytes) (expectedGeneration : Nat) (newEmail tokenHash : Bytes)
    (expiresAt : Int) : Sql Reply := do
  lockSecurityGeneration accountID expectedGeneration
  let verified ← select [] (fun t => (t.account accountID).map (·.emailVerifiedAt.isSome)) .noRows
  checked (if verified then .ok () else .error .emailUnverified)
  let taken ← select []
    (fun t => some (t.accounts.any fun row => row.email == newEmail && row.id != accountID)) .noRows
  checked (if taken then .error .emailTaken else .ok ())
  deletePendingAccountTokens accountID .changeEmail
  insert [.token tokenHash] accountID (fun t => t.tokens.any (·.tokenHash == tokenHash))
    (.insertToken ⟨tokenHash, accountID, .changeEmail, newEmail, expiresAt, none,
      expectedGeneration⟩)
  return .changeCreated

def confirmEmailChange (input : TokenSessionRotation) (sessionID : Bytes) (now : Int) :
    Sql Reply := do
  let accountID ← lockAccountForToken input.tokenHash .changeEmail input.authenticatedAt
  let (previousEmail, accountGeneration, verified) ← select []
    (fun t => (t.account accountID).map fun row =>
      (row.email, row.securityGeneration, row.emailVerifiedAt.isSome)) .noRows
  let tokenGeneration ← select []
    (fun t => (t.tokens.find? (AccountToken.usable input.tokenHash .changeEmail
      input.authenticatedAt)).map (·.securityGeneration)) .tokenExpired
  checked (if !verified || accountGeneration != tokenGeneration then .error .tokenExpired
    else .ok ())
  let (_, newEmail) ← consumeAccountToken input.tokenHash .changeEmail input.authenticatedAt
  updateEmail accountID newEmail input.authenticatedAt
  invalidatePendingCapabilities accountID now
  deleteSessions accountID
  deletePendingAccountTokens accountID .recoverPassword
  insertSession sessionID accountID input.sessionTokenHash input.sessionExpiresAt
    input.sessionLabel input.authenticatedAt
  let user ← userByID accountID
  return .emailChanged user previousEmail

structure PasswordRotation where
  accountID : Bytes
  passwordHash : Bytes
  expectedPasswordHash : Bytes
  sessionTokenHash : Bytes
  sessionExpiresAt : Int
  sessionLabel : Bytes
  authenticatedAt : Int
  deriving DecidableEq

def changePassword (input : PasswordRotation) (sessionID : Bytes) (now : Int) : Sql Reply := do
  updatePassword input.accountID input.passwordHash (·.passwordHash == input.expectedPasswordHash)
  invalidatePendingCapabilities input.accountID now
  deleteSessions input.accountID
  deleteDesktopConnections input.accountID
  insertSession sessionID input.accountID input.sessionTokenHash input.sessionExpiresAt
    input.sessionLabel input.authenticatedAt
  return .passwordChanged

structure TokenPasswordRotation where
  tokenHash : Bytes
  passwordHash : Bytes
  sessionTokenHash : Bytes
  sessionExpiresAt : Int
  sessionLabel : Bytes
  authenticatedAt : Int
  deriving DecidableEq

def resetPassword (input : TokenPasswordRotation) (sessionID : Bytes) (now : Int) : Sql Reply := do
  let accountID ← lockAccountForToken input.tokenHash .recoverPassword input.authenticatedAt
  let _ ← consumeAccountToken input.tokenHash .recoverPassword input.authenticatedAt
  let wasVerified ← select []
    (fun t => (t.account accountID).map (·.emailVerifiedAt.isSome)) .noRows
  updatePassword accountID input.passwordHash (·.suspendedAt.isNone)
  invalidatePendingCapabilities accountID now
  revokePreVerificationCredentials accountID wasVerified now
  -- the source deletes the connections twice
  deleteDesktopConnections accountID
  deleteDesktopConnections accountID
  insertSession sessionID accountID input.sessionTokenHash input.sessionExpiresAt
    input.sessionLabel input.authenticatedAt
  let user ← userByID accountID
  return .passwordReset user

def revokeAllSessions (accountID : Bytes) (now : Int) : Sql Reply := do
  invalidatePendingCapabilities accountID now
  deleteSessions accountID
  deleteDesktopConnections accountID
  return .revoked

/-- A call, with the fresh identifiers and the clock reading it draws. -/
inductive SecurityTask where
  | createDesktopLink (id accountID codeHash : Bytes) (expiresAt : Int)
  | createOrReplaceDesktopLink (id accountID : Bytes) (expectedGeneration : Nat) (codeHash : Bytes)
      (expiresAt clock : Int)
  | redeemDesktopLink (codeHash deviceName tokenHash : Bytes) (expiresAt : Int) (deviceID : Bytes)
      (clock : Int)
  | createEmailChange (accountID : Bytes) (expectedGeneration : Nat) (newEmail tokenHash : Bytes)
      (expiresAt : Int)
  | confirmEmailChange (input : TokenSessionRotation) (sessionID : Bytes)
  | changePassword (input : PasswordRotation) (sessionID : Bytes)
  | resetPassword (input : TokenPasswordRotation) (sessionID : Bytes)
  | revokeAllSessions (accountID : Bytes)
  deriving DecidableEq

def SecurityTask.program (task : SecurityTask) (now : Int) : Sql Reply :=
  match task with
  | .createDesktopLink id accountID codeHash expiresAt =>
    Accounts.createDesktopLink id accountID codeHash expiresAt now
  | .createOrReplaceDesktopLink id accountID expectedGeneration codeHash expiresAt clock =>
    Accounts.createOrReplaceDesktopLink id accountID expectedGeneration codeHash expiresAt clock now
  | .redeemDesktopLink codeHash deviceName tokenHash expiresAt deviceID clock =>
    Accounts.redeemDesktopLink codeHash deviceName tokenHash expiresAt deviceID clock now
  | .createEmailChange accountID expectedGeneration newEmail tokenHash expiresAt =>
    Accounts.createEmailChange accountID expectedGeneration newEmail tokenHash expiresAt
  | .confirmEmailChange input sessionID => Accounts.confirmEmailChange input sessionID now
  | .changePassword input sessionID => Accounts.changePassword input sessionID now
  | .resetPassword input sessionID => Accounts.resetPassword input sessionID now
  | .revokeAllSessions accountID => Accounts.revokeAllSessions accountID now

def securityEngine : Engine SecurityTask Tables Change RowLock Err Reply :=
  engineOf SecurityTask.program

abbrev SecurityTxn := Txn SecurityTask Tables Change RowLock Err Reply

/-- The account that a committed call is about, if it is a password change, a password reset,
    a revocation of all sessions or a confirmed change of address. -/
def SecurityTask.rotated (task : SecurityTask) (reply : Reply) : Option Bytes :=
  match task, reply with
  | .confirmEmailChange _ _, .emailChanged user _ => some user.id
  | .changePassword input _, _ => some input.accountID
  | .resetPassword _ _, .passwordReset user => some user.id
  | .revokeAllSessions accountID, _ => some accountID
  | _, _ => none

/-- The same without the changes of address. -/
def SecurityTask.disconnected (task : SecurityTask) (reply : Reply) : Option Bytes :=
  match task with
  | .confirmEmailChange _ _ => none
  | _ => task.rotated reply

/-! What these calls can do to the tables. -/

/-- The changes of a rotation of account `a`. -/
def Change.Rotates (a : Bytes) : Change → Prop
  | .setPassword id _ | .setEmail id _ _ => id = a
  | c => c.Of a

theorem Change.Of.rotates {a : Bytes} {c : Change} (h : c.Of a) : c.Rotates a := by
  cases c <;> first | exact h | exact h.elim

/-- The changes of issuing a code: codes go and come, nothing else moves. -/
def Change.OnCodes : Change → Prop
  | .insertCode _ | .cancelCodes _ _ => True
  | _ => False

/-- The changes of asking for a new address. -/
def Change.Asks (accountID : Bytes) (generation : Nat) : Change → Prop
  | .insertToken row => row.accountID = accountID ∧ row.securityGeneration = generation
  | .deleteTokens _ => True
  | _ => False

theorem lockSecurityGeneration_emits {P : Change → Prop} (accountID : Bytes) (generation : Nat) :
    (lockSecurityGeneration accountID generation).Emits P :=
  .bind (guarded_select _ _ _) fun _ => guarded_checked _

theorem deleteDesktopConnections_of (a : Bytes) :
    (deleteDesktopConnections a).Emits (Change.Of a) :=
  guarded_exec fun _ row hrow => by simpa using (List.mem_filter.mp hrow).2

theorem createDesktopLink_onCodes (id accountID codeHash : Bytes) (expiresAt now : Int) :
    (createDesktopLink id accountID codeHash expiresAt now).Emits Change.OnCodes :=
  .bind (guarded_select _ _ _) fun _ =>
    .bind (guarded_insert trivial) fun _ => trivial

theorem createOrReplaceDesktopLink_onCodes (id accountID : Bytes) (generation : Nat)
    (codeHash : Bytes) (expiresAt clock now : Int) :
    (createOrReplaceDesktopLink id accountID generation codeHash expiresAt clock now).Emits
      Change.OnCodes := by
  refine .bind (lockSecurityGeneration_emits _ _) fun _ => ?_
  refine .bind (guarded_exec fun _ => trivial) fun _ => ?_
  exact .bind (guarded_insert trivial) fun _ => trivial

theorem createEmailChange_asks (accountID : Bytes) (generation : Nat) (newEmail tokenHash : Bytes)
    (expiresAt : Int) : (createEmailChange accountID generation newEmail tokenHash expiresAt).Emits
      (Change.Asks accountID generation) := by
  refine .bind (lockSecurityGeneration_emits _ _) fun _ => ?_
  refine .bind (guarded_select _ _ _) fun _ => ?_
  refine .bind (guarded_checked _) fun _ => ?_
  refine .bind (guarded_select _ _ _) fun _ => ?_
  refine .bind (guarded_checked _) fun _ => ?_
  refine .bind (guarded_exec fun _ => trivial) fun _ => ?_
  exact .bind (guarded_insert ⟨rfl, rfl⟩) fun _ => trivial

/-! Locks on tokens. -/

/-- Whoever changes a token holds a lock on its hash. -/
def Change.TokenLocked (locks : List RowLock) : Change → Prop
  | .insertToken row => ⟨.token row.tokenHash, .update⟩ ∈ locks
  | .useToken tokenHash _ => ⟨.token tokenHash, .noKeyUpdate⟩ ∈ locks
  | .deleteTokens rows => ∀ row ∈ rows, ⟨.token row.tokenHash, .update⟩ ∈ locks
  | _ => True

theorem deletePendingAccountTokens_locked (accountID : Bytes) (purpose : TokenPurpose) :
    (deletePendingAccountTokens accountID purpose).Guarded Change.TokenLocked :=
  guarded_exec fun _ _ hrow => List.mem_map_of_mem hrow

theorem SecurityTask.program_locked (task : SecurityTask) (now : Int) :
    (task.program now).Guarded Change.TokenLocked := by
  cases task <;> dsimp only [SecurityTask.program]
  -- statement by statement: only those that change tokens have something to show
  all_goals
    repeat' first
      | exact trivial
      | refine Program.Guarded.bind ?_ fun _ => ?_
      | exact guarded_select _ _ _
      | exact guarded_checked _
      | refine guarded_provided ?_
      | exact deletePendingAccountTokens_locked _ _
      | exact guarded_exec fun _ => trivial
      | exact guarded_insert trivial
      | exact guarded_insert (List.mem_cons_of_mem _ (List.mem_singleton_self _))
      | exact guarded_update fun _ => trivial
      | exact guarded_update fun _ => List.mem_singleton_self _

/-! The calls, read back from their traces. -/

section
variable {pending : List Change} {trace : List (Entry Tables Change RowLock)} {a : Bytes} {now : Int}
  {reply : Reply}

variable {generation : Nat} {sessionID : Bytes}

theorem lockSecurityGeneration_ran (h : Ran (lockSecurityGeneration a generation) pending trace ()) :
    ∃ s account, trace = [⟨s, [⟨.account a, .noKeyUpdate⟩], []⟩] ∧
      (applyAll Change.apply pending s).account a = some account ∧
      account.securityGeneration = generation := by
  obtain ⟨_, t, rest, rfl, hread, h⟩ := h.bind
  obtain ⟨s, rfl, hfound⟩ := select_ran hread
  obtain ⟨account, haccount, rfl⟩ := Option.map_eq_some_iff.mp hfound
  obtain ⟨rfl, hcheck⟩ := checked_ran h
  refine ⟨s, account, rfl, haccount, ?_⟩
  by_contra hne
  simp [hne] at hcheck

theorem createOrReplaceDesktopLink_ran {id codeHash : Bytes} {expiresAt clock : Int}
    (h : Ran (createOrReplaceDesktopLink id a generation codeHash expiresAt clock now) [] trace
      reply) : ∃ s s' s'' l' locks hashes account, s.account a = some account ∧
      ⟨.code codeHash, .update⟩ ∈ locks ∧ codeHash ∉ s''.keys.map Prod.fst ∧
      trace = [⟨s, [⟨.account a, .noKeyUpdate⟩], []⟩, ⟨s', l', [.cancelCodes hashes now]⟩,
        ⟨s'', locks, [.insertCode ⟨id, codeHash, a, expiresAt, clock, none, none, none,
          account.securityGeneration⟩]⟩] := by
  obtain ⟨⟨⟩, t, rest, rfl, hlock, h⟩ := h.bind
  obtain ⟨s, account, rfl, haccount, rfl⟩ := lockSecurityGeneration_ran hlock
  obtain ⟨⟨⟩, t, rest, rfl, hcancel, h⟩ := h.bind
  obtain ⟨s', view, -, rfl⟩ := exec_ran hcancel
  obtain ⟨⟨⟩, t, rest, rfl, hinsert, h⟩ := h.bind
  obtain ⟨s'', locks, rfl, hcode, fresh⟩ := insertCode_ran hinsert
  obtain ⟨rfl, -⟩ := h.done
  refine ⟨s, s', s'', _, locks, _, account, haccount, hcode, ?_, rfl⟩
  -- its own cancellations leave the keys alone
  have keys : ∀ hashes, ((Change.cancelCodes hashes now).apply s'').keys = s''.keys := fun hashes =>
    Change.keys_apply (fun _ h => by cases h) s''
  rw [← keys]
  intro hin
  obtain ⟨key, hkey, hhash⟩ := List.mem_map.mp hin
  obtain ⟨row, hrow, rfl⟩ := List.mem_map.mp hkey
  exact fresh row hrow hhash

theorem createEmailChange_ran {newEmail tokenHash : Bytes} {expiresAt : Int}
    (h : Ran (createEmailChange a generation newEmail tokenHash expiresAt) [] trace reply) :
    ∃ s account rest, trace = ⟨s, [⟨.account a, .noKeyUpdate⟩], []⟩ :: rest ∧
      s.account a = some account ∧ account.securityGeneration = generation := by
  obtain ⟨⟨⟩, t, rest, rfl, hlock, -⟩ := h.bind
  obtain ⟨s, account, rfl, haccount, hgeneration⟩ := lockSecurityGeneration_ran hlock
  exact ⟨s, account, rest, rfl, haccount, hgeneration⟩

/-- The tokens for a new address that account `a` has open. -/
def Tables.pendingChanges (t : Tables) (a : Bytes) : List AccountToken :=
  t.tokens.filter fun row => row.accountID == a && row.purpose == .changeEmail && row.usedAt.isNone

theorem mem_pendingChanges {t : Tables} {row : AccountToken} : row ∈ t.pendingChanges a ↔
    row ∈ t.tokens ∧ row.accountID = a ∧ row.purpose = .changeEmail ∧ row.usedAt = none := by
  simp [Tables.pendingChanges, and_assoc]

/-- A transaction that moves the generation of account `a` on under a lock of its row, and then
    deletes every token for a new address that it sees. -/
structure Rotation (a : Bytes) (trace : List (Entry Tables Change RowLock)) : Prop where
  changes : ∀ c ∈ changesOf trace, c.Rotates a
  locked : ⟨.account a, .noKeyUpdate⟩ ∈ locksOf trace
  generation : .nextGeneration a ∈ changesOf trace
  tokens : ∃ front s back view, view = applyAll Change.apply (changesOf front) s ∧
    ⟨.account a, .noKeyUpdate⟩ ∈ locksOf front ∧
    trace = front ++ ⟨s, (view.pendingChanges a).map (⟨.token ·.tokenHash, .update⟩),
      [.deleteTokens (view.pendingChanges a)]⟩ :: back

/-- A transaction that, under a lock of account `a`, deletes every connection that it sees. -/
def Disconnection (a : Bytes) (trace : List (Entry Tables Change RowLock)) : Prop :=
  ∃ front s locks back view, view = applyAll Change.apply (changesOf front) s ∧
    ⟨.account a, .noKeyUpdate⟩ ∈ locksOf front ∧
    trace = front ++
      ⟨s, locks, [.deleteConnections (view.connections.filter (·.accountID == a))]⟩ :: back

theorem invalidatePendingCapabilities_ran
    (h : Ran (invalidatePendingCapabilities a now) pending trace ()) :
    ∃ s s' s'' l' hashes view, view = applyAll Change.apply
        (pending ++ [.nextGeneration a, .cancelCodes hashes now]) s'' ∧
      trace = [⟨s, [⟨.account a, .noKeyUpdate⟩], [.nextGeneration a]⟩,
        ⟨s', l', [.cancelCodes hashes now]⟩,
        ⟨s'', (view.pendingChanges a).map (⟨.token ·.tokenHash, .update⟩),
          [.deleteTokens (view.pendingChanges a)]⟩] := by
  obtain ⟨⟨⟩, t, rest, rfl, hgeneration, h⟩ := h.bind
  obtain ⟨s, view, rfl, rfl, -⟩ := hgeneration.stmt
  obtain ⟨⟨⟩, t, rest, rfl, hcancel, h⟩ := h.bind
  obtain ⟨s', view, rfl, rfl⟩ := exec_ran hcancel
  obtain ⟨s'', view, hview, rfl⟩ := exec_ran h
  refine ⟨s, s', s'', _, _, view, ?_, rfl⟩
  simpa using hview

/-- A body that invalidates the capabilities of `a` somewhere and only ever rotates `a`. -/
theorem Rotation.of {p : Sql Reply} {front : List (Entry Tables Change RowLock)}
    (part : Contains (invalidatePendingCapabilities a now) p)
    (h : Ran p (changesOf front) trace reply)
    (changes : ∀ c ∈ changesOf (front ++ trace), c.Rotates a) : Rotation a (front ++ trace) := by
  obtain ⟨⟨⟩, first, mid, last, rfl, hmid⟩ := Reads.part Change.apply part h
  obtain ⟨s, s', s'', l', hashes, view, hview, rfl⟩ := invalidatePendingCapabilities_ran hmid
  refine ⟨changes, by simp [locksOf], by simp, ?_⟩
  refine ⟨front ++ first ++ [⟨s, [⟨.account a, .noKeyUpdate⟩], [.nextGeneration a]⟩,
    ⟨s', l', [.cancelCodes hashes now]⟩], s'', last, view, ?_, by simp [locksOf], by simp⟩
  simpa using hview

theorem Disconnection.of {p : Sql Reply} {front : List (Entry Tables Change RowLock)}
    (part : Contains (deleteDesktopConnections a) p) (h : Ran p (changesOf front) trace reply)
    (locked : ⟨.account a, .noKeyUpdate⟩ ∈ locksOf front) : Disconnection a (front ++ trace) := by
  obtain ⟨⟨⟩, first, mid, last, rfl, hmid⟩ := Reads.part Change.apply part h
  obtain ⟨s, view, hview, rfl⟩ := exec_ran hmid
  refine ⟨front ++ first, s, _, last, view, by simpa using hview, ?_, (List.append_assoc _ _ _).symm⟩
  rw [locksOf, List.flatMap_append]
  exact List.mem_append_left _ locked

theorem invalidatePendingCapabilities_rotates (a : Bytes) (now : Int) :
    (invalidatePendingCapabilities a now).Emits (Change.Rotates a) :=
  (invalidatePendingCapabilities_of a now).mono fun _ => Change.Of.rotates

theorem deleteDesktopConnections_rotates (a : Bytes) :
    (deleteDesktopConnections a).Emits (Change.Rotates a) :=
  (deleteDesktopConnections_of a).mono fun _ => Change.Of.rotates

theorem userByID_ran {user : User} (h : Ran (userByID a) pending trace user) : user.id = a := by
  obtain ⟨s, rfl, hfound⟩ := select_ran h
  obtain ⟨row, hrow, rfl⟩ := Option.map_eq_some_iff.mp hfound
  exact account_id hrow

theorem revokeAllSessions_ran (h : Ran (revokeAllSessions a now) [] trace reply) :
    Rotation a trace ∧ Disconnection a trace := by
  have changes := h.emits (P := Change.Rotates a) <|
    .bind (invalidatePendingCapabilities_rotates a now) fun _ =>
      .bind (guarded_exec fun _ => trivial) fun _ =>
        .bind (deleteDesktopConnections_rotates a) fun _ => trivial
  have rotation : Rotation a ([] ++ trace) := Rotation.of .head h changes
  refine ⟨rotation, ?_⟩
  obtain ⟨⟨⟩, t, rest, rfl, hinvalidate, h⟩ := h.bind
  obtain ⟨_, _, _, _, _, _, -, rfl⟩ := invalidatePendingCapabilities_ran hinvalidate
  exact Disconnection.of (.tail fun _ => .head) h (by simp [locksOf])

theorem changePassword_ran {input : PasswordRotation}
    (h : Ran (changePassword input sessionID now) [] trace reply) :
    Rotation input.accountID trace ∧ Disconnection input.accountID trace := by
  have changes := h.emits (P := Change.Rotates input.accountID) <|
    .bind (guarded_update fun _ => rfl) fun _ =>
      .bind (invalidatePendingCapabilities_rotates _ now) fun _ =>
        .bind (guarded_exec fun _ => trivial) fun _ =>
          .bind (deleteDesktopConnections_rotates _) fun _ =>
            .bind (guarded_insert trivial) fun _ => trivial
  have rotation : Rotation input.accountID ([] ++ trace) := Rotation.of (.tail fun _ => .head) h changes
  refine ⟨rotation, ?_⟩
  obtain ⟨⟨⟩, t, rest, rfl, hpassword, h⟩ := h.bind
  obtain ⟨_, _, -, rfl, -⟩ := hpassword.stmt
  exact Disconnection.of (.tail fun _ => .tail fun _ => .head) h (by simp [locksOf])

theorem resetPassword_ran {input : TokenPasswordRotation}
    (h : Ran (resetPassword input sessionID now) [] trace reply) :
    ∃ user, reply = .passwordReset user ∧ Rotation user.id trace ∧ Disconnection user.id trace := by
  obtain ⟨a, t₁, rest, rfl, hlock, h⟩ := h.bind
  obtain ⟨s₁, s₂, rfl⟩ := lockAccountForToken_ran hlock
  have changes := h.emits (P := Change.Rotates a) <| by
    refine .bind (guarded_update fun _ => trivial) fun _ => ?_
    refine .bind (guarded_select _ _ _) fun wasVerified => ?_
    refine .bind (guarded_update fun _ => rfl) fun _ => ?_
    refine .bind (invalidatePendingCapabilities_rotates a now) fun _ => ?_
    refine ((revokePreVerificationCredentials_of a wasVerified now).mono
      fun _ => Change.Of.rotates).bind fun _ => ?_
    refine .bind (deleteDesktopConnections_rotates a) fun _ => ?_
    refine .bind (deleteDesktopConnections_rotates a) fun _ => ?_
    refine .bind (guarded_insert trivial) fun _ => ?_
    exact .bind (guarded_select _ _ _) fun _ => trivial
  have rotation := Rotation.of (.tail fun _ => .tail fun _ => .tail fun _ => .head) h changes
  have gone := Disconnection.of (a := a) (.tail fun _ => .tail fun _ => .tail fun _ => .tail fun _ =>
    .tail fun _ => .head) h (by simp [locksOf])
  iterate 8 obtain ⟨_, _, _, rfl, -, h⟩ := h.bind
  obtain ⟨user, _, _, rfl, huser, h⟩ := h.bind
  obtain rfl := userByID_ran huser
  exact ⟨user, h.done.2.symm, rotation, gone⟩

theorem confirmEmailChange_ran {input : TokenSessionRotation}
    (h : Ran (confirmEmailChange input sessionID now) [] trace reply) :
    ∃ user previous, reply = .emailChanged user previous ∧ Rotation user.id trace := by
  obtain ⟨a, t₁, rest, rfl, hlock, h⟩ := h.bind
  obtain ⟨s₁, s₂, rfl⟩ := lockAccountForToken_ran hlock
  have changes := h.emits (P := Change.Rotates a) <| by
    refine .bind (guarded_select _ _ _) fun _ => ?_
    refine .bind (guarded_select _ _ _) fun _ => ?_
    refine .bind (guarded_checked _) fun _ => ?_
    refine .bind (guarded_update fun _ => trivial) fun _ => ?_
    refine .bind (guarded_update fun _ => rfl) fun _ => ?_
    refine .bind (invalidatePendingCapabilities_rotates a now) fun _ => ?_
    refine .bind (guarded_exec fun _ => trivial) fun _ => ?_
    refine .bind (guarded_exec fun _ => trivial) fun _ => ?_
    refine .bind (guarded_insert trivial) fun _ => ?_
    exact .bind (guarded_select _ _ _) fun _ => trivial
  have rotation := Rotation.of (.tail fun _ => .tail fun _ => .tail fun _ => .tail fun _ =>
    .tail fun _ => .head) h changes
  obtain ⟨⟨previous, _, _⟩, _, _, rfl, -, h⟩ := h.bind
  iterate 8 obtain ⟨_, _, _, rfl, -, h⟩ := h.bind
  obtain ⟨user, _, _, rfl, huser, h⟩ := h.bind
  obtain rfl := userByID_ran huser
  exact ⟨user, previous, h.done.2.symm, rotation⟩

end

end Sesame.Accounts
