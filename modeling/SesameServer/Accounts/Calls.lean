import SesameServer.Accounts.Tables

/- The four calls, read back from their traces.

   1. `select_ran` … `checked_ran` — what a finished statement saw and did; `guarded_…` — what
      its changes can be, whatever it sees.
   2. `addCredential_adds`, `redeemDesktopLink_adds`, `verifyEmail_verifies` — the changes of
      each call.
   3. `createDesktopLink_ran`, `redeemDesktopLink_ran` — where a code gets its generation and
      where a redemption compares it.
   4. `verifyEmail_opens`, `verifyRest_fresh` — a first verification, statement by statement. -/
namespace Sesame.Accounts
open ReadCommitted

/-! Statements read back. -/

/-- A body that ran to its end with this trace and answered `a`. -/
abbrev Ran {α : Type} (p : Sql α) (pending : List Change) (trace : List (Entry Tables Change RowLock))
    (a : α) : Prop := Reads Change.apply p pending trace (.done a)

section
variable {α : Type} {pending : List Change} {trace : List (Entry Tables Change RowLock)} {a : α}

theorem select_ran {locks : List RowLock} {read : Tables → Option α} {missing : Err}
    (h : Ran (select locks read missing) pending trace a) :
    ∃ seen, trace = [⟨seen, locks, []⟩] ∧ read (applyAll Change.apply pending seen) = some a := by
  obtain ⟨seen, view, rfl, rfl, hread⟩ := h.stmt
  refine ⟨seen, rfl, ?_⟩
  revert hread
  cases read (applyAll Change.apply pending seen) with
  | none => intro h; cases h
  | some b => intro h; cases h; rfl

theorem select_bind {β : Type} {locks : List RowLock} {read : Tables → Option α} {missing : Err}
    {f : α → Sql β} {b : β} (h : Ran (select locks read missing >>= f) pending trace b) :
    ∃ a seen rest, trace = ⟨seen, locks, []⟩ :: rest ∧
      read (applyAll Change.apply pending seen) = some a ∧ Ran (f a) pending rest b := by
  obtain ⟨a, t, rest, rfl, hread, h⟩ := h.bind
  obtain ⟨seen, rfl, hfound⟩ := select_ran hread
  exact ⟨a, seen, rest, rfl, hfound, by simpa using h⟩

variable {locks : Tables → List RowLock} {change : Tables → Change}

theorem exec_ran (h : Ran (exec locks change) pending trace ()) :
    ∃ seen view, view = applyAll Change.apply pending seen ∧
      trace = [⟨seen, locks view, [change view]⟩] := by
  obtain ⟨seen, view, hview, htrace, -⟩ := h.stmt
  exact ⟨seen, view, hview, htrace⟩

theorem insert_ran {keys : List Resource} {accountID : Bytes} {taken : Tables → Bool}
    {change : Change} (h : Ran (insert keys accountID taken change) pending trace ()) :
    ∃ seen, trace = [⟨seen, ⟨.account accountID, .keyShare⟩ :: keys.map (⟨·, .update⟩), [change]⟩] ∧
      taken (applyAll Change.apply pending seen) = false := by
  obtain ⟨seen, view, rfl, rfl, hread⟩ := h.stmt
  refine ⟨seen, rfl, ?_⟩
  by_contra htaken
  simp [Bool.eq_true_of_not_eq_false htaken] at hread

theorem provided_ran {c : Bool} {act : Sql Unit} (h : Ran (provided c act) pending trace ()) :
    (c = true ∧ Ran act pending trace ()) ∨ (c = false ∧ trace = []) := by
  unfold provided at h
  cases c with
  | true => exact .inl ⟨rfl, h⟩
  | false => exact .inr ⟨rfl, h.done.1⟩

theorem checked_ran {r : Except Err α} (h : Ran (checked r) pending trace a) :
    trace = [] ∧ r = .ok a := by
  cases r with
  | error e => cases h
  | ok b =>
    obtain ⟨rfl, rfl⟩ := h.done
    exact ⟨rfl, rfl⟩

variable {G : List RowLock → Change → Prop}

theorem guarded_select (locks : List RowLock) (read : Tables → Option α) (missing : Err) :
    (select locks read missing).Guarded G :=
  Program.guarded_stmt fun _ c hc => by cases hc

theorem guarded_update {reply : Tables → Except Err α} (h : ∀ t, G (locks t) (change t)) :
    Program.Guarded G (.stmt locks (fun t => [change t]) reply) :=
  Program.guarded_stmt fun t c hc => by rw [List.mem_singleton.mp hc]; exact h t

theorem guarded_exec (h : ∀ t, G (locks t) (change t)) : (exec locks change).Guarded G :=
  guarded_update h

theorem guarded_insert {keys : List Resource} {accountID : Bytes} {taken : Tables → Bool}
    {change : Change} (h : G (⟨.account accountID, .keyShare⟩ :: keys.map (⟨·, .update⟩)) change) :
    (insert keys accountID taken change).Guarded G := guarded_update fun _ => h

theorem guarded_provided {c : Bool} {act : Sql Unit} (h : act.Guarded G) :
    (provided c act).Guarded G := by
  unfold provided
  split
  · exact h
  · trivial

theorem guarded_checked (r : Except Err α) : (checked r).Guarded G := by
  cases r <;> trivial

end

/-! What each call can do to the tables. -/

/-- The changes of `AddCredential` and `RedeemDesktopLink`: no account row changes, no code
    comes and no row goes. -/
def Change.Adds : Change → Prop
  | .insertCredential _ | .insertConnection _ | .useCode _ _ | .connectCode _ _ => True
  | _ => False

/-- The changes of a verification of account `a`: it touches that account's row alone, and
    passkeys and connections of that account alone go. -/
def Change.Of (a : Bytes) : Change → Prop
  | .setVerified id _ | .nextGeneration id | .clearPassword id => id = a
  | .deleteCredentials rows => ∀ row ∈ rows, row.accountID = a
  | .deleteConnections rows => ∀ row ∈ rows, row.accountID = a
  | .useToken _ _ | .deleteTokens _ | .insertSession _ | .deleteSessions _ | .cancelCodes _ _ =>
    True
  | _ => False

theorem addCredential_adds (accountID credentialID credential name : Bytes) (now : Int) :
    (addCredential accountID credentialID credential name now).Emits Change.Adds :=
  .bind (guarded_insert trivial) fun _ => trivial

theorem redeemDesktopLink_adds (codeHash deviceName tokenHash : Bytes) (expiresAt : Int)
    (deviceID : Bytes) (clock now : Int) :
    (redeemDesktopLink codeHash deviceName tokenHash expiresAt deviceID clock now).Emits
      Change.Adds := by
  refine .bind (guarded_select _ _ _) fun _ => .bind (guarded_select _ _ _) fun _ => ?_
  refine .bind (guarded_update fun _ => trivial) fun _ => .bind (guarded_insert trivial) fun _ => ?_
  exact .bind (guarded_exec fun _ => trivial) fun _ => trivial

theorem cancelLinkCodes_of (a accountID : Bytes) (p : Tables → LinkCode → Bool) (now : Int) :
    (cancelLinkCodes accountID p now).Emits (Change.Of a) := guarded_exec fun _ => trivial

theorem invalidatePendingCapabilities_of (a : Bytes) (now : Int) :
    (invalidatePendingCapabilities a now).Emits (Change.Of a) :=
  .bind (guarded_update fun _ => rfl) fun _ =>
    .bind (cancelLinkCodes_of a a _ now) fun _ => guarded_exec fun _ => trivial

theorem revokePreVerificationCredentials_of (a : Bytes) (wasVerified : Bool) (now : Int) :
    (revokePreVerificationCredentials a wasVerified now).Emits (Change.Of a) := by
  have owner : ∀ {b : Bytes} {c : Bool}, (b == a && c) = true → b = a := fun h =>
    beq_iff_eq.mp (Bool.and_eq_true_iff.mp h).1
  refine .bind (guarded_exec fun _ => trivial) fun _ => guarded_provided ?_
  refine .bind (guarded_exec fun t row hrow => owner (List.mem_filter.mp hrow).2) fun _ => ?_
  exact .bind (guarded_exec fun t row hrow => owner (List.mem_filter.mp hrow).2) fun _ =>
    cancelLinkCodes_of a a _ now

variable {id accountID codeHash : Bytes} {expiresAt now : Int}
  {trace : List (Entry Tables Change RowLock)} {reply : Reply}

theorem insertCode_ran {createdAt : Int} {generation : Nat} {pending : List Change}
    (h : Ran (insertCode id accountID codeHash expiresAt createdAt generation) pending trace ()) :
    ∃ s locks, trace = [⟨s, locks, [.insertCode ⟨id, codeHash, accountID, expiresAt, createdAt, none,
        none, none, generation⟩]⟩] ∧ ⟨.code codeHash, .update⟩ ∈ locks ∧
      ∀ row ∈ (applyAll Change.apply pending s).codes, row.codeHash ≠ codeHash := by
  obtain ⟨s, rfl, fresh⟩ := insert_ran h
  refine ⟨s, _, rfl, by simp, fun row hrow hhash => ?_⟩
  have taken : (applyAll Change.apply pending s).codes.any
      (fun row => row.codeHash == codeHash || row.id == id) = true :=
    List.any_eq_true.mpr ⟨row, hrow, by simp [hhash]⟩
  rw [taken] at fresh
  cases fresh

/-- A code is issued with the generation of the account that its statement saw, under a
    hash that is new and locked. -/
theorem createDesktopLink_ran
    (h : Ran (createDesktopLink id accountID codeHash expiresAt now) [] trace reply) :
    ∃ s s' locks account, s.account accountID = some account ∧
      ⟨.code codeHash, .update⟩ ∈ locks ∧ (∀ row ∈ s'.codes, row.codeHash ≠ codeHash) ∧
      trace = [⟨s, [], []⟩, ⟨s', locks, [.insertCode ⟨id, codeHash, accountID, expiresAt, now, none,
        none, none, account.securityGeneration⟩]⟩] := by
  obtain ⟨generation, s, rest, rfl, hfound, h⟩ := select_bind h
  obtain ⟨account, haccount, rfl⟩ := Option.map_eq_some_iff.mp hfound
  obtain ⟨⟨⟩, t, rest, rfl, hinsert, h⟩ := h.bind
  obtain ⟨s', locks, rfl, hlock, fresh⟩ := insertCode_ran hinsert
  obtain ⟨rfl, -⟩ := h.done
  exact ⟨s, s', locks, account, haccount, hlock, fresh, rfl⟩

/-- Whatever has run of it: a code has the generation of the account that was seen. -/
theorem createDesktopLink_issues {last : Sql Reply} {code : LinkCode}
    (h : Reads Change.apply (createDesktopLink id accountID codeHash expiresAt now) [] trace last)
    (hcode : .insertCode code ∈ changesOf trace) :
    ∃ e ∈ trace, ∃ account, e.seen.account code.accountID = some account ∧
      code.securityGeneration = account.securityGeneration := by
  rcases h.bind_cases with ⟨mid, hread⟩ | ⟨generation, t, rest, rfl, hread, h⟩
  · exact (hread.emits (P := fun _ => False) (guarded_select _ _ _) _ hcode).elim
  · obtain ⟨s, rfl, hfound⟩ := select_ran hread
    obtain ⟨account, haccount, rfl⟩ := Option.map_eq_some_iff.mp hfound
    have issued := h.emits (.bind (guarded_insert rfl) fun _ => trivial) _
      (by simpa using hcode)
    cases issued
    exact ⟨⟨s, [], []⟩, by simp, account, haccount, rfl⟩

variable {tokenHash : Bytes}

/-- A code is redeemed under the account's shared lock and with the generation read there. -/
theorem redeemDesktopLink_ran {deviceName : Bytes} {deviceID : Bytes} {clock : Int}
    (h : Ran (redeemDesktopLink codeHash deviceName tokenHash expiresAt deviceID clock now) []
      trace reply) : ∃ s₁ s₂ s₃ l₃ rest first code account, trace = [⟨s₁, [], []⟩,
        ⟨s₂, [⟨.account first.accountID, .share⟩], []⟩, ⟨s₃, l₃, [.useCode codeHash now]⟩] ++ rest ∧
      first ∈ s₁.codes ∧ first.codeHash = codeHash ∧ s₂.account first.accountID = some account ∧
      code ∈ s₃.codes ∧ code.codeHash = codeHash ∧
      code.securityGeneration = account.securityGeneration := by
  obtain ⟨a, s₁, rest, rfl, hread, h⟩ := select_bind h
  obtain ⟨first, hfound, rfl⟩ := Option.map_eq_some_iff.mp hread
  obtain ⟨generation, s₂, rest, rfl, hread, h⟩ := select_bind h
  obtain ⟨account, haccount, rfl⟩ := Option.map_eq_some_iff.mp hread
  obtain ⟨code, t, rest, rfl, hcode, -⟩ := h.bind
  obtain ⟨s₃, view, hview, rfl, hreply⟩ := hcode.stmt
  obtain rfl : view = s₃ := hview
  refine ⟨s₁, s₂, view, _, rest, first, code, account, rfl, List.mem_of_find?_eq_some hfound,
    by simpa using List.find?_some hfound, haccount, ?_⟩
  split at hreply
  · next row hrow =>
    cases hreply
    have usable := List.find?_some hrow
    simp only [Bool.and_eq_true, beq_iff_eq] at usable
    exact ⟨List.mem_of_find?_eq_some hrow, usable.1.1.1.1, usable.2⟩
  · cases hreply

/-- A connection is for the account of the code that was used. -/
theorem redeemDesktopLink_connects {deviceName : Bytes} {deviceID : Bytes} {clock : Int}
    (h : Ran (redeemDesktopLink codeHash deviceName tokenHash expiresAt deviceID clock now) []
      trace reply) {row : Connection} (hrow : .insertConnection row ∈ changesOf trace) :
    ∃ e ∈ trace, ∃ code ∈ e.seen.codes, code.codeHash = codeHash ∧
      row.accountID = code.accountID := by
  obtain ⟨a, s₁, rest, rfl, -, h⟩ := select_bind h
  obtain ⟨generation, s₂, rest, rfl, -, h⟩ := select_bind h
  obtain ⟨code, t, rest, rfl, hcode, h⟩ := h.bind
  obtain ⟨s₃, view, hview, rfl, hreply⟩ := hcode.stmt
  obtain rfl : view = s₃ := hview
  have owner := h.emits (P := fun c => ∀ row, c = .insertConnection row →
    row.accountID = code.accountID) (.bind (guarded_insert ?_) fun _ =>
      .bind (guarded_exec ?_) fun _ => trivial)
  · refine ⟨_, List.mem_cons_of_mem _ (List.mem_cons_of_mem _ List.mem_cons_self), code, ?_⟩
    split at hreply
    · next found hfound =>
      cases hreply
      have usable := List.find?_some hfound
      simp only [Bool.and_eq_true, beq_iff_eq] at usable
      refine ⟨List.mem_of_find?_eq_some hfound, usable.1.1.1.1, owner _ ?_ row rfl⟩
      simpa using hrow
    · cases hreply
  · intro row h
    cases h
    rfl
  · intro _ row h
    cases h

/-! A verification, statement by statement. -/

section
variable {verifyPassword : Bytes → Bytes → Bool} {input : TokenSessionRotation} {sessionID : Bytes}
  {now : Int} {trace : List (Entry Tables Change RowLock)} {reply : Reply}

variable {a : Bytes}

theorem account_id {t : Tables} {row : Account} (h : t.account a = some row) :
    row.id = a := by simpa using List.find?_some h

theorem lockAccountForToken_ran {purpose : TokenPurpose} {time : Int}
    (h : Ran (lockAccountForToken tokenHash purpose time) [] trace a) :
    ∃ s₁ s₂, trace = [⟨s₁, [], []⟩, ⟨s₂, [⟨.account a, .noKeyUpdate⟩], []⟩] := by
  obtain ⟨id, s₁, rest, rfl, -, hlock⟩ := select_bind h
  obtain ⟨s₂, rfl, hread⟩ := select_ran hlock
  obtain ⟨row, hrow, rfl⟩ := Option.map_eq_some_iff.mp hread
  rw [account_id hrow]
  exact ⟨s₁, s₂, rfl⟩

/-- What a verification does once the account's row is set verified. -/
abbrev verifyRest (input : TokenSessionRotation) (sessionID : Bytes) (now : Int) (a : Bytes)
    (wasVerified keepPassword : Bool) (user : User) : Sql Reply := do
  provided (!wasVerified) (invalidatePendingCapabilities a now)
  revokePreVerificationCredentials a wasVerified now
  provided (!wasVerified && !keepPassword) <|
    exec (fun _ => [⟨.account a, .noKeyUpdate⟩]) fun _ => .clearPassword a
  insertSession sessionID a input.sessionTokenHash input.sessionExpiresAt input.sessionLabel
    input.authenticatedAt
  return .verified user

theorem keepsPassword_true {wasVerified : Bool} {registrationHash confirmPassword : Bytes}
    (h : keepsPassword verifyPassword wasVerified registrationHash confirmPassword = .ok true) :
    confirmPassword ≠ [] ∧ verifyPassword registrationHash confirmPassword = true := by
  unfold keepsPassword at h
  split at h
  · next given =>
    split at h
    · cases h
    · split at h
      · cases h
      · next matches' => simp_all
  · cases h

theorem verifyRest_reply {wasVerified keep : Bool} {user : User} {pending : List Change}
    (h : Ran (verifyRest input sessionID now a wasVerified keep user) pending trace reply) :
    reply = .verified user := by
  obtain ⟨_, _, _, rfl, -, h⟩ := h.bind
  obtain ⟨_, _, _, rfl, -, h⟩ := h.bind
  obtain ⟨_, _, _, rfl, -, h⟩ := h.bind
  obtain ⟨_, _, _, rfl, -, h⟩ := h.bind
  exact h.done.2.symm

theorem verifyRest_of (a : Bytes) (wasVerified keepPassword : Bool) (user : User) :
    (verifyRest input sessionID now a wasVerified keepPassword user).Emits (Change.Of a) := by
  refine .bind (guarded_provided (invalidatePendingCapabilities_of a now)) fun _ => ?_
  refine .bind (revokePreVerificationCredentials_of a wasVerified now) fun _ => ?_
  refine .bind (guarded_provided (guarded_exec fun _ => rfl)) fun _ => ?_
  exact .bind (guarded_insert trivial) fun _ => trivial

/-- The first statements of a verification: the account's row is locked, the token is used,
    the row is read and set verified. -/
theorem verifyEmail_opens (h : Ran (verifyEmail verifyPassword input sessionID now) [] trace reply) :
    ∃ a user row s₁ s₂ s₃ s₄ s₅ l₃ rest keep, reply = .verified user ∧ user.id = a ∧
      (∀ c ∈ changesOf trace, c.Of a) ∧ s₄.account a = some row ∧
      keepsPassword verifyPassword row.emailVerifiedAt.isSome row.passwordHash
        input.confirmPassword = .ok keep ∧
      trace = [⟨s₁, [], []⟩, ⟨s₂, [⟨.account a, .noKeyUpdate⟩], []⟩,
        ⟨s₃, l₃, [.useToken input.tokenHash input.authenticatedAt]⟩,
        ⟨s₄, [⟨.account a, .noKeyUpdate⟩], []⟩,
        ⟨s₅, [⟨.account a, .noKeyUpdate⟩], [.setVerified a (cutoff a now s₅)]⟩] ++ rest ∧
      Ran (verifyRest input sessionID now a row.emailVerifiedAt.isSome keep user)
        [.useToken input.tokenHash input.authenticatedAt, .setVerified a (cutoff a now s₅)]
        rest reply := by
  obtain ⟨a, t₁, rest, rfl, hlock, h⟩ := h.bind
  obtain ⟨s₁, s₂, rfl⟩ := lockAccountForToken_ran hlock
  obtain ⟨_, t₃, rest, rfl, hconsume, h⟩ := h.bind
  obtain ⟨s₃, view₃, rfl, rfl, -⟩ := hconsume.stmt
  obtain ⟨⟨was, hash⟩, s₄, rest, rfl, hfound, h⟩ := select_bind h
  obtain ⟨row, hrow, hwas⟩ := Option.map_eq_some_iff.mp hfound
  cases hwas
  obtain ⟨keep, t, rest, rfl, hkeep, h⟩ := h.bind
  obtain ⟨rfl, hkeeps⟩ := checked_ran hkeep
  obtain ⟨user, t₅, rest, rfl, hset, h⟩ := h.bind
  obtain ⟨s₅, view₅, rfl, rfl, huser⟩ := hset.stmt
  refine ⟨a, user, row, s₁, s₂, _, s₄, s₅, _, rest, keep, verifyRest_reply h, ?_, fun c hc => ?_, hrow,
    hkeeps, rfl, h⟩
  · split at huser
    · next found hfound =>
      cases huser
      exact account_id hfound
    · cases huser
  · have hrest := h.emits (verifyRest_of a _ keep user) c
    simp only [changesOf_cons, changesOf_nil, List.nil_append, List.append_nil, List.cons_append,
      List.mem_cons] at hc
    rcases hc with rfl | rfl | hc
    · trivial
    · rfl
    · exact hrest hc

theorem verifyEmail_verifies (verifyPassword : Bytes → Bytes → Bool) (input : TokenSessionRotation)
    (sessionID : Bytes) (now : Int) :
    (verifyEmail verifyPassword input sessionID now).Emits fun c => ∃ a, c.Of a := by
  refine .bind (.bind (guarded_select _ _ _) fun _ => guarded_select _ _ _) fun a => ?_
  refine .bind (guarded_update fun _ => ⟨a, trivial⟩) fun _ => ?_
  refine .bind (guarded_select _ _ _) fun read => .bind (guarded_checked _) fun keep => ?_
  refine .bind (guarded_update fun _ => ⟨a, rfl⟩) fun user => ?_
  exact (verifyRest_of a read.1 keep user).mono fun c hc => ⟨a, hc⟩

/-- The last changes of a verification: neither a generation nor a passkey or a connection,
    and one session under the token of the verifier. -/
def Change.Closing (a sessionTokenHash : Bytes) : Change → Prop
  | .clearPassword id => id = a
  | .insertSession row => row.tokenHash = sessionTokenHash
  | .cancelCodes _ _ => True
  | _ => False

theorem account_onAccount (t : Tables) (id a : Bytes) (f : Account → Account)
    (hf : ∀ row, (f row).id = row.id) :
    (t.onAccount id f).account a = (t.account a).map fun row => if a = id then f row else row := by
  have same : ((·.id == a) : Account → Bool) ∘ (fun row => if row.id == id then f row else row) =
      (·.id == a) := by
    funext row
    simp only [Function.comp_apply]
    split
    · rw [hf]
    · rfl
  unfold Tables.account Tables.onAccount updateRows
  rw [List.find?_map, same]
  refine Option.map_congr fun row hrow => ?_
  have hid : row.id = a := by simpa using List.find?_some hrow
  simp [hid]

/-- The rest of a first verification: the generation moves on, codes, tokens and sessions go,
    then the passkeys and connections older than the time it set the row verified. -/
theorem verifyRest_fresh {keep : Bool} {user : User} {time verifiedAt : Int}
    (h : Ran (verifyRest input sessionID now a false keep user)
      [.useToken tokenHash time, .setVerified a verifiedAt] trace reply) :
    ∃ s₆ s₇ s₈ s₉ s₁₀ s₁₁ l₇ l₈ l₉ l₁₀ l₁₁ hashes tokens sessions credentials connections after,
      trace = [⟨s₆, [⟨.account a, .noKeyUpdate⟩], [.nextGeneration a]⟩,
        ⟨s₇, l₇, [.cancelCodes hashes now]⟩, ⟨s₈, l₈, [.deleteTokens tokens]⟩,
        ⟨s₉, l₉, [.deleteSessions sessions]⟩, ⟨s₁₀, l₁₀, [.deleteCredentials credentials]⟩,
        ⟨s₁₁, l₁₁, [.deleteConnections connections]⟩] ++ after ∧
      ((s₁₀.account a).isSome → credentials = s₁₀.credentials.filter fun row =>
        row.accountID == a && row.createdAt < verifiedAt) ∧
      ((s₁₁.account a).isSome → connections = s₁₁.connections.filter fun row =>
        row.accountID == a && row.createdAt < verifiedAt) ∧
      sessions = s₉.sessions.filter (·.accountID == a) ∧
      (keep = false → .clearPassword a ∈ changesOf after) ∧
      ∀ c ∈ changesOf after, c.Closing a input.sessionTokenHash := by
  obtain ⟨⟨⟩, t, rest, rfl, hinvalidate, h⟩ := h.bind
  obtain ⟨-, hinvalidate⟩ | ⟨hno, -⟩ := provided_ran hinvalidate
  swap
  · cases hno
  obtain ⟨⟨⟩, t₆, u, rfl, hgeneration, hinvalidate⟩ := hinvalidate.bind
  obtain ⟨s₆, view₆, rfl, rfl, -⟩ := hgeneration.stmt
  obtain ⟨⟨⟩, t₇, t₈, rfl, hcancel, htokens⟩ := hinvalidate.bind
  obtain ⟨s₇, view₇, rfl, rfl⟩ := exec_ran hcancel
  obtain ⟨s₈, view₈, rfl, rfl⟩ := exec_ran htokens
  obtain ⟨⟨⟩, t, rest, rfl, hrevoke, h⟩ := h.bind
  obtain ⟨⟨⟩, t₉, u, rfl, hsessions, hrevoke⟩ := hrevoke.bind
  obtain ⟨s₉, view₉, rfl, rfl⟩ := exec_ran hsessions
  obtain ⟨-, hrevoke⟩ | ⟨hno, -⟩ := provided_ran hrevoke
  swap
  · cases hno
  obtain ⟨⟨⟩, t₁₀, u, rfl, hcredentials, hrevoke⟩ := hrevoke.bind
  obtain ⟨s₁₀, view₁₀, rfl, rfl⟩ := exec_ran hcredentials
  obtain ⟨⟨⟩, t₁₁, t₁₂, rfl, hconnections, hcodes⟩ := hrevoke.bind
  obtain ⟨s₁₁, view₁₁, rfl, rfl⟩ := exec_ran hconnections
  have closing₁ := hcodes.emits (P := Change.Closing a input.sessionTokenHash)
    (guarded_exec fun _ => trivial)
  have closing₂ := h.emits (P := Change.Closing a input.sessionTokenHash) <|
    .bind (guarded_provided (guarded_exec fun _ => rfl)) fun _ =>
      .bind (guarded_insert rfl) fun _ => trivial
  -- the transaction sees its own row, verified at `verifiedAt`, whatever the other columns
  have own : ∀ t : Tables, (t.account a).isSome →
      cutoff a now ((t.onAccount a fun row => { row with emailVerifiedAt := some verifiedAt }).onAccount
        a fun row => { row with securityGeneration := row.securityGeneration + 1 }) = verifiedAt := by
    intro t ht
    obtain ⟨row, hrow⟩ := Option.isSome_iff_exists.mp ht
    unfold cutoff
    rw [account_onAccount, account_onAccount, hrow]
    · simp
    · intro _; rfl
    · intro _; rfl
  obtain ⟨⟨⟩, t₁₃, rest, rfl, hclear, h⟩ := h.bind
  refine ⟨s₆, s₇, s₈, s₉, s₁₀, s₁₁, _, _, _, _, _, _, _, _, _, _, t₁₂ ++ (t₁₃ ++ rest), rfl,
    ?_, ?_, rfl, ?_, ?_⟩
  · intro ht
    exact congrArg (fun v => s₁₀.credentials.filter fun row =>
      row.accountID == a && row.createdAt < v) (own s₁₀ ht)
  · intro ht
    exact congrArg (fun v => s₁₁.connections.filter fun row =>
      row.accountID == a && row.createdAt < v) (own s₁₁ ht)
  · intro hkeep
    obtain ⟨-, hclear⟩ | ⟨hno, -⟩ := provided_ran hclear
    · obtain ⟨_, _, -, rfl⟩ := exec_ran hclear
      simp
    · simp [hkeep] at hno
  · intro c hc
    rw [changesOf_append, List.mem_append] at hc
    exact hc.elim (closing₁ c) (closing₂ c)

end

end Sesame.Accounts
