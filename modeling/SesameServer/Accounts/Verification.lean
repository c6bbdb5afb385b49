import SesameServer.Accounts.Commits

/- What the verification of an address takes from whoever registered it
   (`VerifyEmail`, `revokePreVerificationCredentials`).

   1. `issued_behind`, `not_redeemed` — link codes carry the generation of their account, and
      are dead once the account has moved on and no redemption shares its row.
   2. `FirstVerification`, `first_verification` — what the commit of a first verification
      does to the tables. It deletes rows created before it began.
   3. `verification_revokes` — nothing is left of the earlier access exactly when everything
      committed at the deletions was created before the verification began.
   4. `verification_leaves_late_access` — a run in which a passkey and a connection stay. -/
namespace Sesame.Accounts
open ReadCommitted

section
variable {verifyPassword : Bytes → Bytes → Bool} {tables : Tables} {clock : Int}
  {events later : List (Event Task Tables Change RowLock Err Reply)}
  {sys sys' sys'' : System Task Tables Change RowLock Err Reply} {id : Nat} {txn : AccountTxn}
  {a : Bytes} {row : Account}

/-! Link codes. -/

/-- The statement that issues the code has run, and its transaction is not rolled back. -/
def Issued (sys : System Task Tables Change RowLock Err Reply) (code : LinkCode) : Prop :=
  code ∈ sys.tables.codes ∨
    ∃ id txn, sys.active.lookup id = some txn ∧ .insertCode code ∈ changesOf txn.trace

/-- A call of `RedeemDesktopLink` that saw the code. -/
def Redeems (txn : AccountTxn) (code : LinkCode) : Prop :=
  (∃ deviceName tokenHash expiresAt deviceID clock, txn.task =
    .redeemDesktopLink code.codeHash deviceName tokenHash expiresAt deviceID clock) ∧
  ∃ e ∈ txn.trace, code.key ∈ e.seen.keys

variable {code : LinkCode} {b : Bytes} {t : Tables} {changes : List Change}

theorem insertCode_pending {task : Task} {now : Int} {trace : List (Entry Tables Change RowLock)}
    {last : Sql Reply} (h : Reads Change.apply (task.program verifyPassword now) [] trace last)
    (hcode : .insertCode code ∈ changesOf trace) :
    ∃ e ∈ trace, ∃ account, e.seen.account code.accountID = some account ∧
      code.securityGeneration = account.securityGeneration := by
  cases task with
  | addCredential accountID credentialID credential name =>
    exact absurd (h.emits (addCredential_adds accountID credentialID credential name now) _ hcode) id
  | redeemDesktopLink codeHash deviceName tokenHash expiresAt deviceID clock =>
    exact absurd (h.emits (redeemDesktopLink_adds codeHash deviceName tokenHash expiresAt deviceID
      clock now) _ hcode) id
  | verifyEmail input sessionID =>
    obtain ⟨_, hof⟩ := h.emits (verifyEmail_verifies verifyPassword input sessionID now) _ hcode
    exact hof.elim
  | createDesktopLink id accountID codeHash expiresAt => exact createDesktopLink_issues h hcode

theorem issued_behind (wf : tables.WF) (run : (engine verifyPassword).Run tables clock events sys)
    (issued : Issued sys code) : ∃ account,
      sys.tables.account code.accountID = some account ∧
        code.securityGeneration ≤ account.securityGeneration := by
  rcases issued with stored | ⟨id, txn, active, pending⟩
  · exact (run_wf task_issues wf run).generations code.key (List.mem_map_of_mem stored)
  · obtain ⟨e, ran, account, haccount, hgen⟩ :=
      insertCode_pending ((Engine.Run.sound run).reads id txn active) pending
    obtain ⟨account', haccount', hle⟩ :=
      (since_grown run active ran).accounts _ account haccount
    exact ⟨account', haccount', Nat.le_trans (Nat.le_of_eq hgen) hle⟩

/-- Nobody redeems a code that is behind its account, once every redemption under way has
    yet to lock the account. -/
theorem not_redeemed (wf : tables.WF) (run : (engine verifyPassword).Run tables clock events sys)
    (steps : (engine verifyPassword).Steps sys later sys')
    (account : sys.tables.account a = some row)
    (unshared : ∀ id txn, sys.active.lookup id = some txn →
      ⟨.account a, .share⟩ ∉ locksOf txn.trace) (owner : code.accountID = a)
    (behind : code.securityGeneration < row.securityGeneration)
    (committed : .committed id txn ∈ later) : ¬ Redeems txn code := by
  rintro ⟨⟨deviceName, tokenHash, expiresAt, deviceID, time, task⟩, e, he, hcode⟩
  obtain ⟨before, mid, path, active, reply, body⟩ := steps.committed committed
  have run' : (engine verifyPassword).Run tables clock (events ++ before) mid := run.trans path
  exact behind_not_redeemed task_issues wf run path account unshared owner behind active body
    (congrArg (fun task => Task.program verifyPassword task txn.start) task)
    ((since_grown run' active he).codes hcode)

/-! A first verification, committed. -/

/-- The tables that were committed when the statement with such a change ran. -/
def sawAt (txn : AccountTxn) (p : Change → Bool) : Option Tables :=
  (txn.trace.find? fun e => e.changes.any p).map (·.seen)

def Change.deletesSessions : Change → Bool
  | .deleteSessions _ => true
  | _ => false

def Change.deletesCredentials : Change → Bool
  | .deleteCredentials _ => true
  | _ => false

def Change.deletesConnections : Change → Bool
  | .deleteConnections _ => true
  | _ => false

/-- Of the row of an account, its password is kept or cleared by the changes of a
    verification. -/
theorem Change.Of.password {c : Change} (of : c.Of b) {row' : Account}
    (h : (c.apply t).account a = some row') : ∃ row, t.account a = some row ∧
      (row'.passwordHash = row.passwordHash ∨ row'.passwordHash = []) := by
  have on : ∀ id (f : Account → Account), (t.onAccount id f).account a = some row' →
      (∀ row, (f row).id = row.id) →
      (∀ row, (f row).passwordHash = row.passwordHash ∨ (f row).passwordHash = []) →
      ∃ row, t.account a = some row ∧
        (row'.passwordHash = row.passwordHash ∨ row'.passwordHash = []) := by
    intro id f h hid hf
    rw [account_onAccount t id a f hid] at h
    obtain ⟨row, hrow, rfl⟩ := Option.map_eq_some_iff.mp h
    refine ⟨row, hrow, ?_⟩
    split
    · exact hf row
    · exact .inl rfl
  cases c with
  | setVerified | nextGeneration => exact on _ _ h (fun _ => rfl) fun _ => .inl rfl
  | clearPassword => exact on _ _ h (fun _ => rfl) fun _ => .inr rfl
  | setPassword | setEmail => cases of
  | _ => exact ⟨row', h, .inl rfl⟩

theorem applyAll_password (of : ∀ c ∈ changes, c.Of b) {Q : Bytes → Prop} (empty : Q [])
    (first : ∀ row, t.account a = some row → Q row.passwordHash) : ∀ row,
      (applyAll Change.apply changes t).account a = some row → Q row.passwordHash := by
  refine applyAll_keeps Change.apply (P := fun u => ∀ row, u.account a = some row → Q row.passwordHash)
    (fun c hc u hu row' h => ?_) first
  obtain ⟨mid, hmid, kept | cleared⟩ := (of c hc).password h
  · rw [kept]
    exact hu mid hmid
  · rw [cleared]
    exact empty

theorem applyAll_cleared (of : ∀ c ∈ changes, c.Of b) (mem : .clearPassword a ∈ changes) : ∀ row,
      (applyAll Change.apply changes t).account a = some row → row.passwordHash = [] := by
  obtain ⟨front, back, rfl⟩ := List.append_of_mem mem
  rw [applyAll_append]
  change ∀ row, (applyAll Change.apply back (Change.apply (.clearPassword a) _)).account a = some row → _
  have kept : ∀ c ∈ back, c.Of b := fun c hc => of c (by simp [hc])
  refine applyAll_password kept (Q := (· = [])) rfl fun row h => ?_
  change (Tables.onAccount _ a fun row => { row with passwordHash := [] }).account a = some row at h
  rw [account_onAccount] at h
  · obtain ⟨mid, -, rfl⟩ := Option.map_eq_some_iff.mp h
    simp
  · intro _; rfl

/-- The last changes of a verification touch neither passkeys nor connections, and the only
    session they bring is the verifier's. -/
theorem closing_keeps {tokenHash : Bytes} (h : ∀ c ∈ changes, c.Closing a tokenHash) (t : Tables) :
    (applyAll Change.apply changes t).credentials = t.credentials ∧
    (applyAll Change.apply changes t).connections = t.connections ∧
    ∀ s ∈ (applyAll Change.apply changes t).sessions, s ∈ t.sessions ∨ s.tokenHash = tokenHash := by
  refine applyAll_keeps Change.apply (P := fun u => u.credentials = t.credentials ∧
    u.connections = t.connections ∧ ∀ s ∈ u.sessions, s ∈ t.sessions ∨ s.tokenHash = tokenHash)
    (fun c hc u hu => ?_) ⟨rfl, rfl, fun s hs => .inl hs⟩
  have closing := h c hc
  cases c with
  | clearPassword | cancelCodes => exact hu
  | insertSession new =>
    refine ⟨hu.1, hu.2.1, fun s hs => ?_⟩
    rcases List.mem_append.mp hs with hs | hs
    · exact hu.2.2 s hs
    · rw [List.mem_singleton.mp hs]
      exact .inr closing
  | _ => cases closing

/-- What the commit of a first verification of account `a` does to the tables `before` it:
    `r`, `s` and `t` were committed when it deleted sessions, passkeys and connections. -/
structure FirstVerification (verifyPassword : Bytes → Bytes → Bool) (input : TokenSessionRotation)
    (txn : AccountTxn) (a : Bytes) (before after r s t : Tables) : Prop where
  sawSessions : sawAt txn Change.deletesSessions = some r
  sawCredentials : sawAt txn Change.deletesCredentials = some s
  sawConnections : sawAt txn Change.deletesConnections = some t
  locked : ⟨.account a, .noKeyUpdate⟩ ∈ locksOf txn.trace
  generation : .nextGeneration a ∈ changesOf txn.trace
  sinceCredentials : Undisturbed a s before
  sinceConnections : Undisturbed a t before
  sessions : ∀ row ∈ after.sessions,
    ¬ (row ∈ r.sessions ∧ row.accountID = a) ∨ row.tokenHash = input.sessionTokenHash
  credentials : ∀ row, row ∈ after.credentials ↔ row ∈ before.credentials ∧
    ¬ (row ∈ s.credentials ∧ row.accountID = a ∧ row.createdAt < txn.start)
  connections : ∀ row, row ∈ after.connections ↔ row ∈ before.connections ∧
    ¬ (row ∈ t.connections ∧ row.accountID = a ∧ row.createdAt < txn.start)
  password : ∀ row, after.account a = some row → row.passwordHash = [] ∨
    input.confirmPassword ≠ [] ∧ verifyPassword row.passwordHash input.confirmPassword = true

/-- From its lock on, a verification sees its account as it is when it commits. -/
theorem since_locked (run : (engine verifyPassword).Run tables clock events sys)
    (active : sys.active.lookup id = some txn) {e₁ : Entry Tables Change RowLock} {s₂ : Tables}
    {rest : List (Entry Tables Change RowLock)}
    (ran : txn.trace = e₁ :: ⟨s₂, [⟨.account a, .noKeyUpdate⟩], []⟩ :: rest) :
    ∀ s ∈ rest.map (·.seen), Undisturbed a s sys.tables := by
  intro s hs
  obtain ⟨e, he, rfl⟩ := List.mem_map.mp hs
  obtain ⟨front, back, rfl⟩ := List.append_of_mem he
  have locked : ⟨.account a, .noKeyUpdate⟩ ∈ locksOf
      ((e₁ :: ⟨s₂, [⟨.account a, .noKeyUpdate⟩], []⟩ :: front) ++ [e]) := by simp [locksOf]
  exact since_undisturbed run active ran rfl locked

theorem first_verification (run : (engine verifyPassword).Run tables clock events sys)
    (active : sys.active.lookup id = some txn) {input : TokenSessionRotation} {sessionID : Bytes}
    (task : txn.task = .verifyEmail input sessionID) {user : User}
    (body : txn.program = .done (.verified user)) (account : sys.tables.account user.id = some row)
    (unverified : row.emailVerifiedAt = none) :
    ∃ r s t, FirstVerification verifyPassword input txn user.id sys.tables
      (applyAll Change.apply (changesOf txn.trace) sys.tables) r s t := by
  have reads := (Engine.Run.sound run).reads id txn active
  rw [task, body] at reads
  obtain ⟨a, user', seen, s₁, s₂, s₃, s₄, s₅, l₃, rest, keep, huser, rfl, of, hseen, hkeep, htrace,
    hrest⟩ := verifyEmail_opens reads
  obtain rfl : user = user' := Reply.verified.inj huser
  have held := since_locked run active htrace
  -- what it read and what it set are about the row as it is committed
  have h₄ : s₄.account user.id = some row := (held s₄ (by simp)).account.symm.trans account
  have h₅ : s₅.account user.id = some row := (held s₅ (by simp)).account.symm.trans account
  obtain rfl : seen = row := Option.some.inj (hseen.symm.trans h₄)
  have cut : cutoff user.id txn.start s₅ = txn.start := by simp [cutoff, h₅, unverified]
  rw [unverified, Option.isSome_none] at hrest hkeep
  rw [cut] at hrest htrace
  obtain ⟨s₆, s₇, s₈, s₉, s₁₀, s₁₁, l₇, l₈, l₉, l₁₀, l₁₁, hashes, tokens, sessions, credentials,
    connections, after, rfl, hcredentials, hconnections, hsessions, hclear, hclosing⟩ :=
    verifyRest_fresh hrest
  have h₁₀ := held s₁₀ (by simp)
  have h₁₁ := held s₁₁ (by simp)
  have gone := hcredentials (by simp [h₁₀.account.symm.trans account])
  have dropped := hconnections (by simp [h₁₁.account.symm.trans account])
  have changes : changesOf txn.trace = [.useToken input.tokenHash input.authenticatedAt,
      .setVerified user.id txn.start, .nextGeneration user.id, .cancelCodes hashes txn.start,
      .deleteTokens tokens, .deleteSessions sessions, .deleteCredentials credentials,
      .deleteConnections connections] ++ changesOf after := by
    rw [htrace]
    simp
  obtain ⟨keptCredentials, keptConnections, keptSessions⟩ := closing_keeps hclosing
    (applyAll Change.apply [.useToken input.tokenHash input.authenticatedAt,
      .setVerified user.id txn.start, .nextGeneration user.id, .cancelCodes hashes txn.start,
      .deleteTokens tokens, .deleteSessions sessions, .deleteCredentials credentials,
      .deleteConnections connections] sys.tables)
  rw [← applyAll_append, ← changes] at keptCredentials keptConnections keptSessions
  refine ⟨s₉, s₁₀, s₁₁, ?_, ?_, ?_, ?_, ?_, h₁₀, h₁₁, ?_, ?_, ?_, ?_⟩
  · rw [sawAt, htrace]; rfl
  · rw [sawAt, htrace]; rfl
  · rw [sawAt, htrace]; rfl
  · rw [htrace]; simp [locksOf]
  · rw [changes]; simp
  · intro session hsession
    rcases keptSessions session hsession with old | new
    · left
      have := (mem_deleteRows.mp old).2
      rw [hsessions] at this
      simpa using this
    · exact .inr new
  · intro credential
    rw [keptCredentials]
    refine mem_deleteRows.trans (and_congr_right fun _ => ?_)
    rw [gone]
    simp
  · intro connection
    rw [keptConnections]
    refine mem_deleteRows.trans (and_congr_right fun _ => ?_)
    rw [dropped]
    simp
  · cases keep with
    | false =>
      exact fun row' hrow' => .inl (applyAll_cleared of (by rw [changes]; simp [hclear rfl]) row' hrow')
    | true =>
      obtain ⟨given, matched⟩ := keepsPassword_true hkeep
      refine applyAll_password of (Q := fun hash => hash = [] ∨ input.confirmPassword ≠ [] ∧
        verifyPassword hash input.confirmPassword = true) (.inl rfl) fun row' hrow' => .inr ⟨given, ?_⟩
      rw [account] at hrow'
      cases hrow'
      exact matched

/-- What a first verification takes from whoever had the account before, whatever runs beside
    it: link codes, sessions, and the password unless the verifier knows it. -/
structure Barred (verifyPassword : Bytes → Bytes → Bool) (input : TokenSessionRotation) (a : Bytes)
    (sys sys' : System Task Tables Change RowLock Err Reply) (r : Tables) : Prop where
  codes : ∀ code, code.accountID = a → Issued sys code →
    ∀ later last, (engine verifyPassword).Steps sys' later last →
      ∀ id txn, .committed id txn ∈ later → ¬ Redeems txn code
  sessions : ∀ row ∈ sys'.tables.sessions,
    ¬ (row ∈ r.sessions ∧ row.accountID = a) ∨ row.tokenHash = input.sessionTokenHash
  password : ∀ row, sys'.tables.account a = some row → row.passwordHash = [] ∨
    input.confirmPassword ≠ [] ∧ verifyPassword row.passwordHash input.confirmPassword = true

/-- And the passkeys and desktop connections that were committed when it deleted such rows:
    nothing is left of the access that whoever registered the address had. -/
structure Revoked (verifyPassword : Bytes → Bytes → Bool) (input : TokenSessionRotation) (a : Bytes)
    (sys sys' : System Task Tables Change RowLock Err Reply) (r s t : Tables) : Prop
    extends Barred verifyPassword input a sys sys' r where
  passkeys : ∀ row ∈ s.credentials, row.accountID = a → row ∉ sys'.tables.credentials
  connections : ∀ row ∈ t.connections, row.accountID = a → row ∉ sys'.tables.connections

theorem FirstVerification.barred {input : TokenSessionRotation} {r s : Tables}
    (first : FirstVerification verifyPassword input txn a sys.tables
      (applyAll Change.apply (changesOf txn.trace) sys.tables) r s t) (wf : tables.WF)
    (run : (engine verifyPassword).Run tables clock events sys)
    (active : sys.active.lookup id = some txn) (account : sys.tables.account a = some row)
    (commits : (engine verifyPassword).Next sys [.committed id txn] sys')
    (htables : sys'.tables = applyAll Change.apply (changesOf txn.trace) sys.tables)
    (hactive : sys'.active = sys.active.erase id) : Barred verifyPassword input a sys sys' r := by
  refine ⟨?_, htables ▸ first.sessions, htables ▸ first.password⟩
  intro code owner issued later last steps k t committed
  obtain ⟨row', hrow', lt⟩ := applyAll_generation first.generation account
  obtain ⟨behind, hbehind, hle⟩ := issued_behind wf run issued
  rw [owner, account] at hbehind
  cases hbehind
  refine not_redeemed wf (run.step commits trivial) steps (htables ▸ hrow') ?_ owner
    (Nat.lt_of_le_of_lt hle lt) committed
  -- nobody shares the row that the verification holds until now
  intro k' t' hk' hshare
  rw [hactive, Table.lookup_erase_eq] at hk'
  split at hk'
  · cases hk'
  · next hne =>
    have apart := (Engine.Run.sound run).apart k' t' id txn hk' active hne _ hshare _ first.locked
    simp [engine, engineOf, RowLock.conflict, LockMode.conflict] at apart

/-- **What a first verification revokes.** At every commit of `VerifyEmail` for an account that
    was not verified, in every interleaving, nothing is left of the earlier access if and only
    if each passkey and each desktop connection that was committed when it deleted such rows
    was created, at the start of its own transaction, before the verification began. Link
    codes, sessions and the password are barred in any case. -/
theorem verification_revokes (wf : tables.WF)
    (run : (engine verifyPassword).Run tables clock events sys)
    (commits : (engine verifyPassword).Next sys [.committed id txn] sys')
    {input : TokenSessionRotation} {sessionID : Bytes}
    (task : txn.task = .verifyEmail input sessionID) {user : User}
    (reply : txn.program = .done (.verified user)) (account : sys.tables.account user.id = some row)
    (unverified : row.emailVerifiedAt = none) : ∃ r s t, sawAt txn Change.deletesSessions = some r ∧
      sawAt txn Change.deletesCredentials = some s ∧
      sawAt txn Change.deletesConnections = some t ∧
      Barred verifyPassword input user.id sys sys' r ∧
      (Revoked verifyPassword input user.id sys sys' r s t ↔
        (∀ row ∈ s.credentials, row.accountID = user.id → row.createdAt < txn.start) ∧
        ∀ row ∈ t.connections, row.accountID = user.id → row.createdAt < txn.start) := by
  obtain ⟨active, htables, hactive⟩ : sys.active.lookup id = some txn ∧
      sys'.tables = applyAll Change.apply (changesOf txn.trace) sys.tables ∧
      sys'.active = sys.active.erase id := by
    cases commits.does with
    | commit active _ => exact ⟨active, rfl, rfl⟩
  obtain ⟨r, s, t, first⟩ := first_verification run active task reply account unverified
  have barred := first.barred wf run active account commits htables hactive
  refine ⟨r, s, t, first.sawSessions, first.sawCredentials, first.sawConnections, barred, ?_⟩
  constructor
  · intro revoked
    constructor
    · intro row hrow owner
      by_contra late
      refine revoked.passkeys row hrow owner ?_
      rw [htables]
      exact (first.credentials row).mpr
        ⟨first.sinceCredentials.credentials row hrow owner, fun h => late h.2.2⟩
    · intro row hrow owner
      by_contra late
      refine revoked.connections row hrow owner ?_
      rw [htables]
      exact (first.connections row).mpr
        ⟨first.sinceConnections.connections row hrow owner, fun h => late h.2.2⟩
  · rintro ⟨passkeys, connections⟩
    refine ⟨barred, fun row hrow owner left => ?_, fun row hrow owner left => ?_⟩
    · rw [htables] at left
      exact ((first.credentials row).mp left).2 ⟨hrow, owner, passkeys row hrow owner⟩
    · rw [htables] at left
      exact ((first.connections row).mp left).2 ⟨hrow, owner, connections row hrow owner⟩

end

/-! Runs of a small database: account 1 waits for its verification, a code is out, and a
passkey was added early on. -/

namespace Demo

def matching (hash password : Bytes) : Bool := hash == password

def tables : Tables where
  accounts := [⟨[1], utf8 "a@example.org", utf8 "registered", none, false, 0, none⟩]
  tokens := [⟨[2], [1], .verifyEmail, [], 1000, none, 0⟩]
  sessions := [⟨[3], [4], [1], 1000, utf8 "Browser", 1, 1⟩]
  credentials := [⟨[5], [1], [], utf8 "early", 5⟩]
  connections := []
  codes := [⟨[6], [7], [1], 1000, 5, none, none, none, 0⟩]

def rotation : TokenSessionRotation := ⟨[2], [8], 1000, [], 10, []⟩

def verify : Task := .verifyEmail rotation [9]

def passkey : Task := .addCredential [1] [10] [] (utf8 "late")

def redeem : Task := .redeemDesktopLink [7] (utf8 "laptop") [11] 1000 [12] 11

/-- The verification begins; a second later a passkey is added and the code is redeemed, both
    to the end; then the verification runs all its statements. -/
def overtaken : List (Move Task) :=
  [.begin verify, .wait 1, .begin passkey, .advance 1, .advance 1, .begin redeem] ++
    List.replicate 6 (.advance 2) ++ List.replicate 14 (.advance 0)

def alone : List (Move Task) := .begin verify :: List.replicate 14 (.advance 0)

theorem tables_wf : tables.WF := by
  constructor
  · decide
  · intro key hkey
    obtain rfl := List.mem_singleton.mp hkey
    exact ⟨_, rfl, Nat.le_refl _⟩

def user : User := ⟨[1], utf8 "a@example.org", true, false⟩

def late : Credential := ⟨[10], [1], [], utf8 "late", 11⟩

def laptop : Connection := ⟨[11], [1], [12], utf8 "laptop", 1000, 11, 11⟩

/-- After the moves the verification is about to commit, and the tables and it meet `p`. -/
def ready (moves : List (Move Task)) (p : Tables → AccountTxn → Bool) : Bool :=
  ((engine matching).play (Engine.start tables 10) moves).any fun r =>
    (r.2.active.lookup 0).any fun txn =>
      txn.task == verify && txn.program.reply? == some (.verified user) && p r.2.tables txn

theorem exists_of_ready {moves : List (Move Task)} {p : Tables → AccountTxn → Bool}
    (h : ready moves p = true) : ∃ events sys txn, (engine matching).Run tables 10 events sys ∧
      sys.active.lookup 0 = some txn ∧ txn.task = verify ∧
      txn.program = .done (.verified user) ∧ p sys.tables txn = true := by
  unfold ready at h
  cases played : (engine matching).play (Engine.start tables 10) moves with
  | none => rw [played] at h; cases h
  | some r =>
    rw [played, Option.any_some] at h
    cases active : r.2.active.lookup 0 with
    | none => rw [active] at h; cases h
    | some txn =>
      rw [active, Option.any_some, Bool.and_eq_true, Bool.and_eq_true, beq_iff_eq, beq_iff_eq] at h
      exact ⟨r.1, r.2, txn, Engine.play_steps played, active, h.1.1, Program.reply?_eq h.1.2, h.2⟩

end Demo

/-- A passkey added and a code redeemed while the verification is under way, both committed
    before it deletes anything, outlive it: they began after it. -/
theorem verification_leaves_late_access : ∃ events sys sys' txn row s t,
    (engine Demo.matching).Run Demo.tables 10 events sys ∧
    (engine Demo.matching).Next sys [.committed 0 txn] sys' ∧
    txn.task = .verifyEmail Demo.rotation [9] ∧ txn.program = .done (.verified Demo.user) ∧
    sys.tables.account Demo.user.id = some row ∧ row.emailVerifiedAt = none ∧
    sawAt txn Change.deletesCredentials = some s ∧ sawAt txn Change.deletesConnections = some t ∧
    Demo.late ∈ s.credentials ∧ Demo.late.accountID = Demo.user.id ∧
    Demo.late ∈ sys'.tables.credentials ∧
    Demo.laptop ∈ t.connections ∧ Demo.laptop.accountID = Demo.user.id ∧
    Demo.laptop ∈ sys'.tables.connections := by
  have h : Demo.ready Demo.overtaken (fun t txn =>
      (t.account Demo.user.id).any (·.emailVerifiedAt.isNone) &&
      (sawAt txn Change.deletesCredentials).any (·.credentials.contains Demo.late) &&
      (sawAt txn Change.deletesConnections).any (·.connections.contains Demo.laptop) &&
      (applyAll Change.apply (changesOf txn.trace) t).credentials.contains Demo.late &&
      (applyAll Change.apply (changesOf txn.trace) t).connections.contains Demo.laptop) = true := by
    decide +kernel
  obtain ⟨events, sys, txn, run, active, task, reply, h⟩ := Demo.exists_of_ready h
  simp only [Bool.and_eq_true, Option.any_eq_true, List.contains_iff_mem,
    Option.isNone_iff_eq_none] at h
  obtain ⟨⟨⟨⟨⟨row, account, unverified⟩, s, hs, passkey⟩, t, ht, connection⟩, left⟩, left'⟩ := h
  exact ⟨events, sys, _, txn, row, s, t, run, Engine.next_commit active reply, task, reply, account,
    unverified, hs, ht, passkey, rfl, left, connection, rfl, left'⟩

/-- The verification alone: the early passkey, the session, the code and the password go. -/
theorem Demo.verification_revokes_alone : ∃ events sys sys' txn r s t,
    (engine matching).Run tables 10 events sys ∧
    (engine matching).Next sys [.committed 0 txn] sys' ∧
    sawAt txn Change.deletesCredentials = some s ∧ s.credentials = tables.credentials ∧
    Revoked matching rotation user.id sys sys' r s t := by
  have h : ready alone (fun t txn => (t.account user.id).any (·.emailVerifiedAt.isNone) &&
      (sawAt txn Change.deletesCredentials).all (·.credentials == tables.credentials) &&
      (sawAt txn Change.deletesConnections).all (·.connections == []) && txn.start == 10) = true := by
    decide +kernel
  obtain ⟨events, sys, txn, run, active, task, reply, h⟩ := exists_of_ready h
  simp only [Bool.and_eq_true, Option.any_eq_true, Option.all_eq_true, beq_iff_eq,
    Option.isNone_iff_eq_none] at h
  obtain ⟨⟨⟨⟨row, account, unverified⟩, passkeys⟩, connections⟩, start⟩ := h
  have commits := Engine.next_commit (E := engine matching) active reply
  obtain ⟨r, s, t, -, hs, ht, -, revoked⟩ :=
    verification_revokes tables_wf run commits task reply account unverified
  refine ⟨events, sys, _, txn, r, s, t, run, commits, hs, passkeys s hs, revoked.mpr ⟨?_, ?_⟩⟩
  · intro credential hcredential _
    rw [passkeys s hs] at hcredential
    rw [start, List.mem_singleton.mp hcredential]
    decide
  · intro connection hconnection
    rw [connections t ht] at hconnection
    cases hconnection

end Sesame.Accounts
