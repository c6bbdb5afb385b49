import SesameServer.Lib.Encoding
import SesameServer.Lib.ReadCommitted

/- Support tickets and their access links in Postgres (`internal/support`, the support calls of
   `internal/accounts/security.go` and `internal/admin/store_tickets.go`, the automatic close of
   `internal/accounts/support_maintenance.go`).

   1. `Tables`, `Change` — the rows, and what a statement does to them.
   2. `select`, `update` — the two shapes of statement on one ticket. A statement locks the rows
      it finds; one that finds none locks nothing.
   3. `close`, `closeAutomatically`, `setOpenStatus`, `issueAccessLink`, `revokeAccessLinks` —
      the transitions that the account side and the admin side share.
   4. The calls, statement by statement, and `engine`, the database that runs them.

   `start` is NOW(), the time the transaction began; `now` is the caller's clock. -/
namespace Sesame.Support
open ReadCommitted

/-! Rows. -/

inductive TicketStatus where
  | open_ | inProgress | waiting | closed
  deriving DecidableEq

inductive TicketPriority where
  | low | normal | high | urgent
  deriving DecidableEq

structure Ticket where
  accountID : Option Bytes
  email : Bytes
  status : TicketStatus
  priority : TicketPriority
  assignedAdminID : Option Bytes
  updatedAt : Int
  closedAt : Option Int
  closedBy : Option Bytes
  closedBySystem : Bool
  accountReopenUntil : Option Int
  firstResponseAt : Option Int
  deriving DecidableEq

/-- A row of `sesame_support_access_links`, under its token hash. -/
structure AccessLink where
  ticketID : Bytes
  requesterEmail : Bytes
  expiresAt : Int
  revokedAt : Option Int
  lastUsedAt : Option Int
  deriving DecidableEq

structure Account where
  email : Bytes
  emailVerifiedAt : Option Int
  deriving DecidableEq

inductive Role where
  | super | support | ops | billing | readonly
  deriving DecidableEq

structure Admin where
  role : Role
  suspended : Bool
  deriving DecidableEq

structure Tables where
  tickets : Table Bytes Ticket
  links : Table Bytes AccessLink
  accounts : Table Bytes Account
  admins : Table Bytes Admin

/-! What statements do to rows. An update names the rows that were found. -/

inductive Change where
  | insertTicket (id : Bytes) (ticket : Ticket)
  | updateTicket (id : Bytes) (set : Ticket → Ticket)
  | insertLink (tokenHash : Bytes) (link : AccessLink)
  | revokeLinks (ticketID : Bytes) (tokenHashes : List Bytes) (now : Int)
  | useLink (tokenHash : Bytes) (now : Int)

/-- `WHERE ticket_id = $1 AND revoked_at IS NULL`. -/
def AccessLink.liveFor (link : AccessLink) (ticketID : Bytes) : Bool :=
  link.ticketID == ticketID && link.revokedAt.isNone

def Change.apply (c : Change) (t : Tables) : Tables :=
  match c with
  | .insertTicket id ticket =>
    if (t.tickets.lookup id).isSome then t else { t with tickets := t.tickets.insert id ticket }
  | .updateTicket id set => { t with tickets := t.tickets.updateWhere (fun k _ => k == id) set }
  | .insertLink tokenHash link =>
    if (t.links.lookup tokenHash).isSome then t else { t with links := t.links.insert tokenHash link }
  | .revokeLinks ticketID tokenHashes now =>
    let found : Bytes → AccessLink → Bool := fun k link => tokenHashes.contains k && link.liveFor ticketID
    { t with links := t.links.updateWhere found fun link => { link with revokedAt := some now } }
  | .useLink tokenHash now =>
    let used : AccessLink → AccessLink := fun link => { link with lastUsedAt := some now }
    { t with links := t.links.updateWhere (fun k _ => k == tokenHash) used }

/-- Row locks. FOR UPDATE and the lock of an UPDATE exclude one another and themselves; an
    inserted key is locked against a second insert of it. -/
inductive RowLock where
  | ticket (id : Bytes)
  | link (tokenHash : Bytes)
  deriving DecidableEq

inductive Err where
  | notFound | supportTicketClosed | supportTicketReopenExpired | emailUnverified | notAllowed
  | duplicateKey
  | other (text : Bytes)
  deriving DecidableEq

abbrev Body := Program Tables Change RowLock Err

/-! Statements. -/

/-- `SELECT … FROM sesame_support_requests WHERE id = $1 AND …`. -/
def Tables.ticketWhere (t : Tables) (id : Bytes) (where_ : Ticket → Bool) : Option Ticket :=
  (t.tickets.lookup id).filter where_

def selectForUpdate (id : Bytes) (where_ : Ticket → Bool) : Body Ticket :=
  .stmt (fun t => if (t.ticketWhere id where_).isSome then [.ticket id] else []) (fun _ => [])
    fun t => match t.ticketWhere id where_ with
      | some ticket => .ok ticket
      | none => .error .notFound

/-- `UPDATE sesame_support_requests SET … WHERE id = $1 AND …`: whether a row was affected. -/
def update (id : Bytes) (where_ : Ticket → Bool) (set : Ticket → Ticket) : Body Bool :=
  .stmt (fun t => if (t.ticketWhere id where_).isSome then [.ticket id] else [])
    (fun t => if (t.ticketWhere id where_).isSome then [.updateTicket id set] else [])
    fun t => .ok (t.ticketWhere id where_).isSome

def query {α : Type} (reply : Tables → Except Err α) : Body α := .stmt (fun _ => []) (fun _ => []) reply

/-! `internal/support`. -/

/-- The live links of a ticket, by token hash. -/
def Tables.liveLinks (t : Tables) (ticketID : Bytes) : List Bytes :=
  (t.links.entries.filter fun e => e.2.liveFor ticketID).map Sigma.fst

def revokeAccessLinks (ticketID : Bytes) (now : Int) : Body Unit :=
  .stmt (fun t => (t.liveLinks ticketID).map .link)
    (fun t => [.revokeLinks ticketID (t.liveLinks ticketID) now]) fun _ => .ok ()

def issueAccessLink (ticketID requesterEmail tokenHash : Bytes) (expiresAt now : Int) : Body Unit := do
  revokeAccessLinks ticketID now
  .stmt (fun _ => [.link tokenHash])
    (fun _ => [.insertLink tokenHash ⟨ticketID, requesterEmail, expiresAt, none, none⟩])
    fun t => if (t.links.lookup tokenHash).isSome then .error .duplicateKey else .ok ()

def reopenWindow : Int := 30 * 24 * 60 * 60

def autoCloseAfter : Int := 14 * 24 * 60 * 60

def close (ticketID : Bytes) (closedBy : Option Bytes) (now : Int) (extraWhere : Ticket → Bool) :
    Body Bool := do
  let affected ← update ticketID extraWhere fun ticket => { ticket with
    status := .closed
    closedAt := some now
    closedBy := closedBy
    closedBySystem := false
    accountReopenUntil := some (now + reopenWindow)
    updatedAt := now }
  if affected then
    revokeAccessLinks ticketID now
    return true
  else
    return false

def closeAutomatically (ticketID : Bytes) (staleBefore now : Int) : Body Bool := do
  let affected ← close ticketID none now fun ticket =>
    ticket.status == .waiting && decide (ticket.updatedAt ≤ staleBefore)
  if affected then
    let _ ← update ticketID (fun _ => true) fun ticket => { ticket with closedBySystem := true }
    return true
  else
    return false

def setOpenStatus (ticketID : Bytes) (status : TicketStatus) (now : Int)
    (extraWhere : Ticket → Bool) : Body Bool :=
  update ticketID extraWhere fun ticket => { ticket with
    status := status
    closedAt := none
    closedBy := none
    closedBySystem := false
    accountReopenUntil := none
    updatedAt := now }

/-! Calls of the account side. -/

/-- What a call returns: the ticket that it answers with. -/
inductive Reply where
  | ticket (id : Bytes)
  | done
  deriving DecidableEq

def createSupportRequest (id : Bytes) (accountID : Option Bytes) (email : Bytes) (start : Int) :
    Body Reply := do
  .stmt (fun _ => [.ticket id])
    (fun _ => [.insertTicket id
      ⟨accountID, email, .open_, .normal, none, start, none, none, false, none, none⟩])
    fun t => if (t.tickets.lookup id).isSome then .error .duplicateKey else .ok ()
  return .ticket id

def Ticket.ownedBy (ticket : Ticket) (accountID : Bytes) : Bool := ticket.accountID == some accountID

def closeSupportTicket (accountID ticketID : Bytes) (now : Int) : Body Reply := do
  let affected ← close ticketID none now fun ticket =>
    ticket.ownedBy accountID && ticket.status != .closed
  if affected then
    return .ticket ticketID
  else
    query fun t => match t.ticketWhere ticketID (·.ownedBy accountID) with
      | none => .error .notFound
      | some _ => .error .supportTicketClosed

def reopenSupportTicket (accountID ticketID : Bytes) (now : Int) : Body Reply := do
  let affected ← setOpenStatus ticketID .open_ now fun ticket =>
    ticket.ownedBy accountID && ticket.status == .closed &&
      ticket.accountReopenUntil.any fun until_ => decide (until_ > now)
  if affected then
    return .ticket ticketID
  else
    query fun t => if (t.ticketWhere ticketID (·.ownedBy accountID)).isSome
      then .error .supportTicketReopenExpired
      else .error .notFound

/-- `SET status = CASE WHEN assigned_admin_id IS NULL THEN 'open' ELSE 'in_progress' END, …`. -/
def Ticket.answered (start : Int) (ticket : Ticket) : Ticket :=
  { ticket with
    status := if ticket.assignedAdminID.isNone then .open_ else .inProgress
    updatedAt := start }

def replyToSupportTicket (accountID ticketID : Bytes) (start : Int) : Body Reply := do
  let ticket ← selectForUpdate ticketID (·.ownedBy accountID)
  if ticket.status = .closed then
    .fail .supportTicketClosed
  else
    let _ ← update ticketID (fun _ => true) (·.answered start)
    return .ticket ticketID

/-- `WHERE token_hash = $1 AND revoked_at IS NULL AND expires_at > NOW()`. -/
def Tables.redeemable (t : Tables) (tokenHash : Bytes) (start : Int) : Option AccessLink :=
  (t.links.lookup tokenHash).filter fun link => link.revokedAt.isNone && decide (link.expiresAt > start)

def resolveSupportAccessLink (tokenHash : Bytes) (start : Int) : Body Bytes := do
  let ticketID ← query fun t => match t.links.lookup tokenHash with
    | some link => .ok link.ticketID
    | none => .error .notFound
  let ticket ← selectForUpdate ticketID fun _ => true
  if ticket.accountID.isSome || ticket.status == .closed then
    .fail .notFound
  else
    let requesterEmail ← .stmt
      (fun t => if (t.redeemable tokenHash start).isSome then [.link tokenHash] else []) (fun _ => [])
      fun t => match t.redeemable tokenHash start with
        | some link => .ok link.requesterEmail
        | none => .error .notFound
    if requesterEmail ≠ ticket.email then .fail .notFound else return ticketID

/-- `UPDATE sesame_support_access_links SET last_used_at = NOW() WHERE token_hash = $1`. -/
def useAccessLink (tokenHash : Bytes) (start : Int) : Body Unit :=
  .stmt (fun t => if (t.links.lookup tokenHash).isSome then [.link tokenHash] else [])
    (fun t => if (t.links.lookup tokenHash).isSome then [.useLink tokenHash start] else [])
    fun _ => .ok ()

def supportTicketForAccessToken (tokenHash : Bytes) (start : Int) : Body Reply := do
  let ticketID ← resolveSupportAccessLink tokenHash start
  useAccessLink tokenHash start
  return .ticket ticketID

def replyToSupportTicketWithAccessToken (tokenHash : Bytes) (start : Int) : Body Reply := do
  let ticketID ← resolveSupportAccessLink tokenHash start
  let _ ← update ticketID (fun _ => true) (·.answered start)
  useAccessLink tokenHash start
  return .ticket ticketID

/-- `lower` is Postgres's LOWER. -/
def attachSupportTicket (lower : Bytes → Bytes) (accountID ticketID : Bytes) (now : Int) :
    Body Reply := do
  let ticket ← selectForUpdate ticketID fun _ => true
  if ticket.accountID.isSome then
    .fail .notFound
  else
    let account ← query fun t => match t.accounts.lookup accountID with
      | some account => .ok account
      | none => .error .notFound
    if account.emailVerifiedAt.isNone then
      .fail .emailUnverified
    else if lower ticket.email ≠ lower account.email then
      .fail .notFound
    else
      let _ ← update ticketID (fun _ => true) fun row => { row with accountID := some accountID }
      revokeAccessLinks ticketID now
      return .ticket ticketID

/-! Calls of the admin side. -/

/-- What a reply email carries: a token for a new link, if there is one, and its end. -/
structure ReplyEmail where
  accessTokenHash : Bytes
  expiresAt : Int
  deriving DecidableEq

def Ticket.replied (start : Int) (ticket : Ticket) : Ticket :=
  { ticket with
    status := .waiting
    updatedAt := start
    firstResponseAt := some (ticket.firstResponseAt.getD start) }

def replyTicket (ticketID : Bytes) (email : Option ReplyEmail) (now start : Int) : Body Reply := do
  let ticket ← selectForUpdate ticketID fun _ => true
  if ticket.status = .closed then
    .fail (.other (utf8 "this ticket is closed; reopen it before replying"))
  else
    let _ ← update ticketID (fun _ => true) (·.replied start)
    match email with
    | some email =>
      if email.accessTokenHash ≠ [] ∧ ticket.accountID.isNone then
        issueAccessLink ticketID ticket.email email.accessTokenHash email.expiresAt now
    | none => pure ()
    return .ticket ticketID

def assignTicket (ticketID adminID : Bytes) (start : Int) : Body Reply := do
  if adminID = [] then
    let _ ← update ticketID (fun _ => true) fun ticket =>
      { ticket with assignedAdminID := none, updatedAt := start }
    return .done
  else
    let admin ← query fun t => match (t.admins.lookup adminID).filter fun admin => !admin.suspended with
      | some admin => .ok admin
      | none => .error (.other (utf8 "the selected admin is not available"))
    if admin.role ≠ .super ∧ admin.role ≠ .support then
      .fail .notAllowed
    else
      let _ ← update ticketID (fun _ => true) fun ticket => { ticket with
        assignedAdminID := some adminID
        updatedAt := start
        status := if ticket.status = .open_ then .inProgress else ticket.status }
      return .done

def setTicketStatus (adminID ticketID : Bytes) (status : TicketStatus) (now : Int) : Body Reply := do
  let _ ← selectForUpdate ticketID fun _ => true
  if status = .closed then
    let _ ← close ticketID (some adminID) now fun _ => true
    return .done
  else
    let _ ← setOpenStatus ticketID status now fun _ => true
    return .done

def setTicketPriority (ticketID : Bytes) (priority : TicketPriority) (start : Int) : Body Reply := do
  let affected ← update ticketID (fun _ => true) fun ticket =>
    { ticket with priority := priority, updatedAt := start }
  if affected then return .done else .fail .notFound

/-! The automatic close. -/

def Tables.waitingTicketIDs (t : Tables) (staleBefore : Int) : List Bytes :=
  (t.tickets.entries.filter fun e =>
    e.2.status == .waiting && decide (e.2.updatedAt ≤ staleBefore)).map Sigma.fst

def autoCloseWaitingSupportRequests (now : Int) : Body Reply := do
  let staleBefore := now - autoCloseAfter
  let ids ← query fun t => .ok (t.waitingTicketIDs staleBefore)
  ids.forM fun id => do
    let _ ← closeAutomatically id staleBefore now
  return .done

/-! The database. -/

inductive Task where
  | createSupportRequest (id : Bytes) (accountID : Option Bytes) (email : Bytes)
  | closeSupportTicket (accountID ticketID : Bytes) (now : Int)
  | reopenSupportTicket (accountID ticketID : Bytes) (now : Int)
  | replyToSupportTicket (accountID ticketID : Bytes)
  | supportTicketForAccessToken (tokenHash : Bytes)
  | replyToSupportTicketWithAccessToken (tokenHash : Bytes)
  | attachSupportTicket (accountID ticketID : Bytes) (now : Int)
  | replyTicket (ticketID : Bytes) (email : Option ReplyEmail) (now : Int)
  | assignTicket (ticketID adminID : Bytes)
  | setTicketStatus (adminID ticketID : Bytes) (status : TicketStatus) (now : Int)
  | setTicketPriority (ticketID : Bytes) (priority : TicketPriority)
  | autoClose (now : Int)
  deriving DecidableEq

def program (lower : Bytes → Bytes) (task : Task) (start : Int) : Body Reply :=
  match task with
  | .createSupportRequest id accountID email => createSupportRequest id accountID email start
  | .closeSupportTicket accountID ticketID now => closeSupportTicket accountID ticketID now
  | .reopenSupportTicket accountID ticketID now => reopenSupportTicket accountID ticketID now
  | .replyToSupportTicket accountID ticketID => replyToSupportTicket accountID ticketID start
  | .supportTicketForAccessToken tokenHash => supportTicketForAccessToken tokenHash start
  | .replyToSupportTicketWithAccessToken tokenHash =>
    replyToSupportTicketWithAccessToken tokenHash start
  | .attachSupportTicket accountID ticketID now => attachSupportTicket lower accountID ticketID now
  | .replyTicket ticketID email now => replyTicket ticketID email now start
  | .assignTicket ticketID adminID => assignTicket ticketID adminID start
  | .setTicketStatus adminID ticketID status now => setTicketStatus adminID ticketID status now
  | .setTicketPriority ticketID priority => setTicketPriority ticketID priority start
  | .autoClose now => autoCloseWaitingSupportRequests now

def engine (lower : Bytes → Bytes) : Engine Task Tables Change RowLock Err Reply where
  program := program lower
  apply := Change.apply
  conflict l m := l == m
  symm l m := by
    rw [Bool.eq_iff_iff, beq_iff_eq, beq_iff_eq]
    exact eq_comm

end Sesame.Support
