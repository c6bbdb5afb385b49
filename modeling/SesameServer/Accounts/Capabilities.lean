import SesameServer.Accounts.Rotations

/- What a rotation takes: once a password change, a password reset, a revocation of all
   sessions or a change of address has committed, capabilities issued before it are dead.

   1. `security_cases`, `brings_locked` — what each call can do, and the lock on the account
      under which tokens and connections come.
   2. `Rotation.clears`, `Disconnection.clears` — at its commit no token for a new address is
      left, and no connection.
   3. `Rotation.excludes` — a confirmation under way holds no such token: the deletion would
      have waited for it.
   4. `steps_fresh` — later tokens carry later generations.
   5. `rotation_cuts_off` — all of it together, in every interleaving. -/
namespace Sesame.Accounts
open ReadCommitted

/-! What a commit can do. -/

section
variable {txn : SecurityTxn}

/-- A transaction that can commit issues one code, redeems one, asks for a new address under
    the lock of its account, or rotates one account. -/
theorem security_cases (h : securityEngine.Finished txn) :
    ((∃ code, Issues txn.trace code) ∧ ∀ c ∈ changesOf txn.trace, c.OnCodes) ∨
    ((∃ codeHash deviceName tokenHash expiresAt deviceID clock, txn.task =
      .redeemDesktopLink codeHash deviceName tokenHash expiresAt deviceID clock) ∧
      ∀ c ∈ changesOf txn.trace, c.Adds) ∨
    (∃ a s account rest, txn.trace = ⟨s, [⟨.account a, .noKeyUpdate⟩], []⟩ :: rest ∧
      s.account a = some account ∧
      ∀ c ∈ changesOf txn.trace, c.Asks a account.securityGeneration) ∨
    ∃ a, Rotation a txn.trace := by
  obtain ⟨reply, h⟩ := h
  obtain ⟨task, start, program, trace⟩ := txn
  dsimp only at h ⊢
  cases task with
  | createDesktopLink id accountID codeHash expiresAt =>
    have changes := h.emits (createDesktopLink_onCodes id accountID codeHash expiresAt start)
    obtain ⟨s, s', locks, account, haccount, hlock, fresh, rfl⟩ := createDesktopLink_ran h
    refine .inl ⟨⟨_, fun t => keys_insertCode _ t, ⟨[_], s', locks, [], rfl, hlock, ?_⟩,
      _, List.mem_cons_self, account, haccount, rfl⟩, changes⟩
    simpa [Tables.keys, LinkCode.key] using fresh
  | createOrReplaceDesktopLink id accountID generation codeHash expiresAt clock =>
    have changes := h.emits (createOrReplaceDesktopLink_onCodes id accountID generation codeHash
      expiresAt clock start)
    obtain ⟨s, s', s'', l', locks, hashes, account, haccount, hlock, fresh, rfl⟩ :=
      createOrReplaceDesktopLink_ran h
    refine .inl ⟨⟨⟨id, codeHash, accountID, expiresAt, clock, none, none, none,
      account.securityGeneration⟩, fun t => ?_, ⟨[_, _], s'', locks, [], rfl, hlock, fresh⟩,
      _, List.mem_cons_self, account, haccount, rfl⟩, changes⟩
    refine (keys_insertCode _ _).trans ?_
    rw [Change.keys_apply (c := .cancelCodes hashes start) (fun _ h => by cases h)]
  | redeemDesktopLink codeHash deviceName tokenHash expiresAt deviceID clock =>
    exact .inr (.inl ⟨⟨codeHash, deviceName, tokenHash, expiresAt, deviceID, clock, rfl⟩,
      h.emits (redeemDesktopLink_adds codeHash deviceName tokenHash expiresAt deviceID clock start)⟩)
  | createEmailChange accountID generation newEmail tokenHash expiresAt =>
    have changes := h.emits (createEmailChange_asks accountID generation newEmail tokenHash
      expiresAt)
    obtain ⟨s, account, rest, rfl, haccount, rfl⟩ := createEmailChange_ran h
    exact .inr (.inr (.inl ⟨accountID, s, account, rest, rfl, haccount, changes⟩))
  | confirmEmailChange input sessionID =>
    obtain ⟨user, previous, -, rotation⟩ := confirmEmailChange_ran h
    exact .inr (.inr (.inr ⟨user.id, rotation⟩))
  | changePassword input sessionID =>
    exact .inr (.inr (.inr ⟨input.accountID, (changePassword_ran h).1⟩))
  | resetPassword input sessionID =>
    obtain ⟨user, -, rotation, -⟩ := resetPassword_ran h
    exact .inr (.inr (.inr ⟨user.id, rotation⟩))
  | revokeAllSessions accountID =>
    exact .inr (.inr (.inr ⟨accountID, (revokeAllSessions_ran h).1⟩))

theorem security_issues : IssuesCodes SecurityTask.program := by
  intro txn h
  rcases security_cases h with ⟨issued, -⟩ | ⟨-, adds⟩ | ⟨a, s, account, rest, -, -, asks⟩ |
    ⟨a, rotation⟩
  · exact .inr issued
  · exact .inl fun c hc code e => by subst e; exact adds _ hc
  · exact .inl fun c hc code e => by subst e; exact asks _ hc
  · exact .inl fun c hc code e => by subst e; exact rotation.changes _ hc

/-- A token for account `a` or a connection of it comes. -/
def Change.Brings (a : Bytes) : Change → Prop
  | .insertToken row => row.accountID = a
  | .insertConnection row => row.accountID = a
  | _ => False

variable {c : Change} {s t : Tables} {time : Int} {row : AccountToken} {changes : List Change}
  {e : Entry Tables Change RowLock}

theorem Change.Rotates.not_brings {a b : Bytes} (h : c.Rotates b) : ¬ c.Brings a := by
  intro brings
  cases c <;> first | exact brings.elim | exact h.elim

variable {tables : Tables} {clock : Int}
  {events before later : List (Event SecurityTask Tables Change RowLock Err Reply)}
  {sys sys' : System SecurityTask Tables Change RowLock Err Reply} {id : Nat} {a : Bytes}

/-- Tokens and connections of an account come under a lock of its row that excludes
    rotations. -/
theorem brings_locked (wf : tables.WF) (run : securityEngine.Run tables clock events sys)
    (active : sys.active.lookup id = some txn) (finished : securityEngine.Finished txn)
    (hc : c ∈ changesOf txn.trace) (brings : c.Brings a) :
    ∃ mode, ⟨.account a, mode⟩ ∈ locksOf txn.trace ∧ mode.conflict .noKeyUpdate = true := by
  rcases security_cases finished with ⟨-, codes⟩ | ⟨⟨codeHash, deviceName, tokenHash, expiresAt,
    deviceID, clock, task⟩, adds⟩ | ⟨b, s, account, rest, htrace, -, asks⟩ | ⟨b, rotation⟩
  · have := codes c hc
    cases c <;> first | exact brings.elim | exact this.elim
  · obtain ⟨reply, reads⟩ := finished
    change Reads Change.apply (txn.task.program txn.start) _ _ _ at reads
    rw [task] at reads
    have := adds c hc
    cases c with
    | insertConnection row =>
      obtain ⟨e, he, code, hcode, hash, owner⟩ := redeemDesktopLink_connects reads hc
      obtain ⟨s, account, ran, -, -⟩ := redemption_at security_issues wf run active ⟨reply, by
          change Reads Change.apply (txn.task.program txn.start) _ _ _
          rwa [task]⟩ code
        (by rw [task, hash]; rfl) ((since_grown run active he).codes (List.mem_map_of_mem hcode))
      refine ⟨.share, mem_locksOf ran ?_, rfl⟩
      rw [← owner, show row.accountID = a from brings]
      exact List.mem_singleton_self _
    | _ => first | exact brings.elim | exact this.elim
  · have := asks c hc
    refine ⟨.noKeyUpdate, ?_, rfl⟩
    rw [htrace]
    cases c with
    | insertToken row =>
      rw [← show row.accountID = a from brings, this.1]
      simp [locksOf]
    | _ => first | exact brings.elim | exact this.elim
  · exact absurd brings (rotation.changes c hc).not_brings

/-! Under the lock of the account. -/

/-- From `s` to `t` account `a` has got no token for a new address and no connection. -/
structure Fewer (a : Bytes) (s t : Tables) : Prop where
  tokens : t.pendingChanges a ⊆ s.pendingChanges a
  connections : ∀ row ∈ t.connections, row.accountID = a → row ∈ s.connections

theorem Fewer.refl (a : Bytes) (s : Tables) : Fewer a s s := ⟨fun _ h => h, fun _ h _ => h⟩

theorem Fewer.trans {u : Tables} (h : Fewer a s t) (h' : Fewer a t u) : Fewer a s u :=
  ⟨fun _ hrow => h.tokens (h'.tokens hrow),
    fun row hrow ha => h.connections row (h'.connections row hrow ha) ha⟩

theorem mem_pendingChanges_use {tokenHash : Bytes} :
    row ∈ ((Change.useToken tokenHash time).apply t).pendingChanges a ↔
      row ∈ t.pendingChanges a ∧ row.tokenHash ≠ tokenHash := by
  rw [mem_pendingChanges, mem_pendingChanges]
  change row ∈ updateRows _ _ t.tokens ∧ _ ↔ _
  unfold updateRows
  rw [List.mem_map]
  constructor
  · rintro ⟨⟨old, hold, rfl⟩, hrow⟩
    split at hrow
    · exact absurd hrow.2.2 (by simp)
    · next hne =>
      rw [if_neg hne]
      exact ⟨⟨hold, hrow⟩, by simpa using hne⟩
  · rintro ⟨⟨hmem, hrow⟩, hne⟩
    refine ⟨⟨row, hmem, ?_⟩, hrow⟩
    simp [hne]

theorem mem_pendingChanges_delete {rows : List AccountToken} :
    row ∈ ((Change.deleteTokens rows).apply t).pendingChanges a ↔
      row ∈ t.pendingChanges a ∧ row ∉ rows := by
  rw [mem_pendingChanges, mem_pendingChanges]
  change row ∈ deleteRows rows t.tokens ∧ _ ↔ _
  rw [mem_deleteRows]
  tauto

theorem Change.fewer (h : ¬ c.Brings a) (t : Tables) : Fewer a t (c.apply t) := by
  cases c with
  | insertToken row =>
    refine ⟨fun r hr => ?_, fun _ h _ => h⟩
    rw [mem_pendingChanges] at hr ⊢
    refine ⟨(List.mem_append.mp hr.1).resolve_right fun hin => ?_, hr.2⟩
    rw [List.mem_singleton.mp hin] at hr
    exact h hr.2.1
  | insertConnection row =>
    refine ⟨fun _ h => h, fun r hr ha => (List.mem_append.mp hr).resolve_right fun hin => ?_⟩
    rw [List.mem_singleton.mp hin] at ha
    exact h ha
  | useToken tokenHash time => exact ⟨fun r hr => (mem_pendingChanges_use.mp hr).1, fun _ h _ => h⟩
  | deleteTokens rows => exact ⟨fun r hr => (mem_pendingChanges_delete.mp hr).1, fun _ h _ => h⟩
  | deleteConnections rows => exact ⟨fun _ h => h, fun r hr _ => (mem_deleteRows.mp hr).1⟩
  | _ => exact ⟨fun _ h => h, fun _ h _ => h⟩

theorem applyAll_fewer (h : ∀ c ∈ changes, ¬ c.Brings a) (t : Tables) :
    Fewer a t (applyAll Change.apply changes t) :=
  applyAll_keeps Change.apply (P := Fewer a t) (fun c hc u hu => hu.trans (Change.fewer (h c hc) u))
    (Fewer.refl a t)

theorem Fewer.rotates {b : Bytes} (hc : c.Rotates b)
    (h : Fewer a s t) : Fewer a (c.apply s) (c.apply t) := by
  cases c with
  | useToken tokenHash time =>
    refine ⟨fun r hr => ?_, h.connections⟩
    rw [mem_pendingChanges_use] at hr ⊢
    exact ⟨h.tokens hr.1, hr.2⟩
  | deleteTokens rows =>
    refine ⟨fun r hr => ?_, h.connections⟩
    rw [mem_pendingChanges_delete] at hr ⊢
    exact ⟨h.tokens hr.1, hr.2⟩
  | deleteConnections rows =>
    refine ⟨h.tokens, fun r hr ha => ?_⟩
    have := mem_deleteRows.mp hr
    exact mem_deleteRows.mpr ⟨h.connections r this.1 ha, this.2⟩
  | insertToken | insertConnection | insertCredential | insertCode | useCode | connectCode =>
    exact hc.elim
  | _ => exact ⟨h.tokens, h.connections⟩

theorem Fewer.applyAll {b : Bytes} (hc : ∀ c ∈ changes, c.Rotates b) (h : Fewer a s t) :
    Fewer a (applyAll Change.apply changes s) (applyAll Change.apply changes t) := by
  induction changes generalizing s t with
  | nil => exact h
  | cons c changes ih =>
    exact ih (fun c' hc' => hc c' (List.mem_cons_of_mem _ hc')) (h.rotates (hc c List.mem_cons_self))

section
variable (wf : tables.WF) (run : securityEngine.Run tables clock events sys)
  (active : sys.active.lookup id = some txn) {front back : List (Entry Tables Change RowLock)}
include wf run active

/-- From a statement under the lock of the account on, nobody else gives it anything. -/
theorem since_fewer (ran : txn.trace = front ++ e :: back)
    (locked : ⟨.account a, .noKeyUpdate⟩ ∈ locksOf front) : Fewer a e.seen sys.tables := by
  refine Engine.Run.since run (R := Fewer a) (Fewer.refl a) Fewer.trans active ran
    fun run' active' finished apart => applyAll_fewer (fun c hc brings => ?_) _
  obtain ⟨mode, held, hmode⟩ := brings_locked wf run' active' finished hc brings
  have := apart _ held ⟨.account a, .noKeyUpdate⟩ (by
    unfold locksOf at locked ⊢
    rw [List.flatMap_append]
    exact List.mem_append_left _ locked)
  simp [securityEngine, engineOf, RowLock.conflict, hmode] at this

/-- A statement of a rotation under the lock of the account: at the commit nothing is left that its
    change leaves of fewer rows than it saw. -/
theorem clears_at (changes : ∀ c ∈ changesOf txn.trace, c.Rotates a) {locks : List RowLock}
    (htrace : txn.trace = front ++ ⟨s, locks, [c]⟩ :: back)
    (locked : ⟨.account a, .noKeyUpdate⟩ ∈ locksOf front) : ∃ t,
      Fewer a (applyAll Change.apply (changesOf front) s) t ∧
      Fewer a (c.apply t) (applyAll Change.apply (changesOf txn.trace) sys.tables) := by
  have all : changesOf txn.trace = changesOf front ++ c :: changesOf back := by simp [htrace]
  rw [all] at changes
  refine ⟨_, (since_fewer wf run active htrace locked).applyAll fun c hc =>
    changes c (List.mem_append_left _ hc), ?_⟩
  rw [all, applyAll_append]
  exact applyAll_fewer (fun c hc =>
    (changes c (List.mem_append_right _ (List.mem_cons_of_mem _ hc))).not_brings) _

/-- At the commit of a rotation no token for a new address is left. -/
theorem Rotation.clears (rotation : Rotation a txn.trace) :
    ∀ row, row ∉ (applyAll Change.apply (changesOf txn.trace) sys.tables).pendingChanges a := by
  intro row hrow
  obtain ⟨front, s, back, view, rfl, locked, htrace⟩ := rotation.tokens
  obtain ⟨t, fewer, left⟩ := clears_at wf run active rotation.changes htrace locked
  have deleted := mem_pendingChanges_delete.mp (left.tokens hrow)
  exact deleted.2 (fewer.tokens deleted.1)

/-- At the commit of a disconnection no connection is left. -/
theorem Disconnection.clears (gone : Disconnection a txn.trace) (rotation : Rotation a txn.trace) :
    ∀ row ∈ (applyAll Change.apply (changesOf txn.trace) sys.tables).connections,
      row.accountID ≠ a := by
  intro row hrow owner
  obtain ⟨front, s, locks, back, view, rfl, locked, htrace⟩ := gone
  obtain ⟨t, fewer, left⟩ := clears_at wf run active rotation.changes htrace locked
  have deleted := mem_deleteRows.mp (left.connections row hrow owner)
  exact deleted.2 (List.mem_filter.mpr
    ⟨fewer.connections row deleted.1 owner, by simpa using owner⟩)

end

/-! Confirmations under way. -/

/-- What a transaction may not touch while another one has locked a token for use. -/
theorem keeps_token {trace : List (Entry Tables Change RowLock)}
    (guarded : ∀ e ∈ trace, ∀ c ∈ e.changes, c.TokenLocked e.locks)
    (apart : ∀ l ∈ locksOf trace, l.conflict ⟨.token row.tokenHash, .noKeyUpdate⟩ = false)
    (hrow : row ∈ t.tokens) : row ∈ (applyAll Change.apply (changesOf trace) t).tokens := by
  refine applyAll_keeps Change.apply (P := fun u => row ∈ u.tokens) (fun c hc u hu => ?_) hrow
  obtain ⟨e, he, hc⟩ := List.mem_flatMap.mp hc
  have locked := guarded e he c hc
  have free : ∀ mode, LockMode.conflict mode .noKeyUpdate = true →
      ⟨.token row.tokenHash, mode⟩ ∉ e.locks := by
    intro mode hmode hin
    have := apart _ (mem_locksOf he hin)
    simp [RowLock.conflict, hmode] at this
  cases c with
  | insertToken new => exact List.mem_append_left _ hu
  | useToken tokenHash time =>
    have hne : row.tokenHash ≠ tokenHash := fun e => free .noKeyUpdate rfl (e ▸ locked)
    exact List.mem_map.mpr ⟨row, hu, by simp [hne]⟩
  | deleteTokens rows =>
    exact mem_deleteRows.mpr ⟨hu, fun hin => free .update rfl (locked row hin)⟩
  | _ => exact hu

theorem guarded_of_finished (finished : securityEngine.Finished txn) :
    ∀ e ∈ txn.trace, ∀ c ∈ e.changes, c.TokenLocked e.locks := by
  obtain ⟨reply, reads⟩ := finished
  exact reads.guarded (SecurityTask.program_locked txn.task txn.start)

/-- A token that an active transaction has used is still there, and open, for the others. -/
theorem used_token_stays (run : securityEngine.Run tables clock events sys)
    (active : sys.active.lookup id = some txn) (ran : e ∈ txn.trace)
    (uses : .useToken row.tokenHash time ∈ e.changes) (hrow : row ∈ e.seen.tokens) :
    row ∈ sys.tables.tokens ∧ ⟨.token row.tokenHash, .noKeyUpdate⟩ ∈ locksOf txn.trace := by
  have held : ⟨.token row.tokenHash, .noKeyUpdate⟩ ∈ e.locks :=
    ((Engine.Run.sound run).reads id txn active).guarded
      (SecurityTask.program_locked txn.task txn.start) e ran _ uses
  refine ⟨?_, mem_locksOf ran held⟩
  obtain ⟨front, back, ran⟩ := List.append_of_mem ran
  refine Engine.Run.since run (R := fun s t => row ∈ s.tokens → row ∈ t.tokens) (fun _ h => h)
    (fun h h' hs => h' (h hs)) active ran (fun _ _ finished apart => ?_) hrow
  exact keeps_token (guarded_of_finished finished) fun l hl => apart l hl _
    (mem_locksOf (by simp) held)

/-- A rotation that can commit and a confirmation under way: no token of the account it rotates
    is in use, for the deletion would have waited. -/
theorem Rotation.excludes (rotation : Rotation a txn.trace) (wf : tables.WF)
    (run : securityEngine.Run tables clock events sys) (active : sys.active.lookup id = some txn)
    (finished : securityEngine.Finished txn) {k : Nat} {other : SecurityTxn}
    (active' : sys.active.lookup k = some other) (hne : k ≠ id) (ran : e ∈ other.trace)
    (uses : .useToken row.tokenHash time ∈ e.changes) : row ∉ e.seen.pendingChanges a := by
  intro hrow
  rw [mem_pendingChanges] at hrow
  obtain ⟨stays, held⟩ := used_token_stays run active' ran uses hrow.1
  have apart : ∀ l ∈ locksOf txn.trace,
      l.conflict ⟨.token row.tokenHash, .noKeyUpdate⟩ = false := fun l hl =>
    (Engine.Run.sound run).apart id txn k other active active' hne.symm l hl _ held
  obtain ⟨front, s, back, view, rfl, locked, htrace⟩ := rotation.tokens
  -- the rotation saw the token when it deleted, and did not touch it before
  have saw := (since_fewer wf run active htrace locked).tokens
    (mem_pendingChanges.mpr ⟨stays, hrow.2⟩)
  have kept : row ∈ (applyAll Change.apply (changesOf front) s).tokens := by
    refine keeps_token (fun e he => guarded_of_finished finished e ?_) (fun l hl => apart l ?_)
      (mem_pendingChanges.mp saw).1
    · rw [htrace]
      exact List.mem_append_left _ he
    · obtain ⟨e, he, hl⟩ := List.mem_flatMap.mp hl
      exact mem_locksOf (by rw [htrace]; exact List.mem_append_left _ he) hl
  have := apart ⟨.token row.tokenHash, .update⟩ (by
    rw [htrace]
    refine mem_locksOf (List.mem_append_right _ List.mem_cons_self) ?_
    exact List.mem_map.mpr ⟨row, mem_pendingChanges.mpr ⟨kept, hrow.2⟩, rfl⟩)
  simp [RowLock.conflict, LockMode.conflict] at this

/-! After the commit. -/

/-- What never changes of a token: its hash, its account and its generation. -/
def AccountToken.key (row : AccountToken) : Bytes × Bytes × Nat :=
  (row.tokenHash, row.accountID, row.securityGeneration)

/-- Codes have distinct hashes, and neither a code nor a token for a new address is ahead of
    its account. -/
structure Tables.Behind (t : Tables) : Prop extends t.WF where
  tokens : ∀ row ∈ t.tokens, row.purpose = .changeEmail → ∃ account,
    t.account row.accountID = some account ∧ row.securityGeneration ≤ account.securityGeneration

/-- A token is asked for under the lock of its account, with the generation read there. -/
theorem insertToken_ran (finished : securityEngine.Finished txn)
    (hrow : .insertToken row ∈ changesOf txn.trace) :
    ∃ e ∈ txn.trace, ⟨.account row.accountID, .noKeyUpdate⟩ ∈ e.locks ∧
      ∃ account, e.seen.account row.accountID = some account ∧
        account.securityGeneration = row.securityGeneration := by
  rcases security_cases finished with ⟨-, codes⟩ | ⟨-, adds⟩ |
    ⟨b, s, account, rest, htrace, haccount, asks⟩ | ⟨b, rotation⟩
  · exact (codes _ hrow).elim
  · exact (adds _ hrow).elim
  · obtain ⟨rfl, hgen⟩ := asks _ hrow
    refine ⟨⟨s, [⟨.account row.accountID, .noKeyUpdate⟩], []⟩, ?_, List.mem_singleton_self _, account,
      haccount, hgen.symm⟩
    rw [htrace]
    exact List.mem_cons_self
  · exact (rotation.changes _ hrow).elim

/-- Every open token of account `a` has a later generation than `g`. -/
def Fresh (a : Bytes) (g : Nat) (t : Tables) : Prop :=
  ∀ row ∈ t.pendingChanges a, g < row.securityGeneration

theorem applyAll_fresh {g : Nat} (fresh : Fresh a g t)
    (new : ∀ row, .insertToken row ∈ changes → row.accountID = a → g < row.securityGeneration) :
    Fresh a g (applyAll Change.apply changes t) := by
  refine applyAll_keeps Change.apply (P := Fresh a g) (fun c hc u hu => ?_) fresh
  by_cases brings : ∃ row, c = .insertToken row
  · obtain ⟨inserted, rfl⟩ := brings
    intro row hrow
    rw [mem_pendingChanges] at hrow
    rcases List.mem_append.mp hrow.1 with old | is_new
    · exact hu row (mem_pendingChanges.mpr ⟨old, hrow.2⟩)
    · rw [List.mem_singleton.mp is_new] at hrow ⊢
      exact new inserted hc hrow.2.1
  · refine fun row hrow => hu row ?_
    cases c with
    | insertToken inserted => exact absurd ⟨inserted, rfl⟩ brings
    | useToken => exact (mem_pendingChanges_use.mp hrow).1
    | deleteTokens => exact (mem_pendingChanges_delete.mp hrow).1
    | _ => exact hrow

/-- Once nobody else holds the account's row and its open tokens are all fresh, they stay so. -/
theorem steps_fresh (sound : securityEngine.Sound sys) (steps : securityEngine.Steps sys later sys')
    {row : Account} (account : sys.tables.account a = some row) {g : Nat}
    (ahead : g < row.securityGeneration) (unlocked : ∀ id txn, sys.active.lookup id = some txn →
      ⟨.account a, .noKeyUpdate⟩ ∉ locksOf txn.trace) (fresh : Fresh a g sys.tables) :
    Fresh a g sys'.tables := by
  refine (steps.always (Q := fun _ s => securityEngine.Sound s ∧ Fresh a g s.tables)
    ⟨sound, fresh⟩ ?_).2
  rintro _ s _ s' path ⟨sound', ih⟩ next -
  refine ⟨sound'.next next.does, ?_⟩
  cases next.does with
  | wait | begin | drop | run => exact ih
  | @commit k other reply active body =>
    refine applyAll_fresh ih fun new hnew owner => ?_
    obtain ⟨e, he, locked, seen, hseen, hgen⟩ := insertToken_ran (sound'.finished active body) hnew
    rw [owner] at locked hseen
    -- it locked the row after the rotation, and read the generation that it set
    rcases Engine.Steps.ran path k other active e he with ⟨old, hold, he⟩ | ⟨es, mid, way, htables⟩
    · exact absurd (mem_locksOf he locked) (unlocked k old hold)
    · obtain ⟨row', hrow', hle⟩ := (steps_grown sound way).accounts a row account
      rw [← htables, hseen] at hrow'
      cases hrow'
      omega

/-! The theorem. -/

def SecurityTask.redeems (task : SecurityTask) (code : LinkCode) : Prop :=
  ∃ deviceName tokenHash expiresAt deviceID clock, task =
    .redeemDesktopLink code.codeHash deviceName tokenHash expiresAt deviceID clock

/-- The token that a change of address used. -/
def confirmed (txn : SecurityTxn) : Option AccountToken :=
  match txn.task with
  | .confirmEmailChange input _ =>
    (txn.trace.find? fun e =>
      e.changes.contains (.useToken input.tokenHash input.authenticatedAt)).bind fun e =>
        e.seen.tokens.find? (AccountToken.usable input.tokenHash .changeEmail input.authenticatedAt)
  | _ => none

/-- The code was there at first, or a transaction that committed has issued it. -/
def CodeIssued (tables : Tables) (events : List (Event SecurityTask Tables Change RowLock Err Reply))
    (code : LinkCode) : Prop :=
  code.key ∈ tables.keys ∨
    ∃ id txn, .committed id txn ∈ events ∧ .insertCode code ∈ changesOf txn.trace

/-- The token was there at first, or a transaction that committed has issued it. -/
def TokenIssued (tables : Tables)
    (events : List (Event SecurityTask Tables Change RowLock Err Reply)) (token : AccountToken) :
    Prop :=
  ∃ row : AccountToken, row.key = token.key ∧ row.purpose = .changeEmail ∧ (row ∈ tables.tokens ∨
    ∃ id txn, .committed id txn ∈ events ∧ .insertToken row ∈ changesOf txn.trace)

/-- What a committed transaction inserted was, at that commit, not ahead of its account. -/
theorem token_issued_behind (behind : tables.Behind)
    (run : securityEngine.Run tables clock events sys) {token : AccountToken}
    (issued : TokenIssued tables events token) : ∃ account,
      sys.tables.account token.accountID = some account ∧
        token.securityGeneration ≤ account.securityGeneration := by
  obtain ⟨row, hkey, purpose, hrow⟩ := issued
  rw [← show row.accountID = token.accountID from congrArg (fun key => key.2.1) hkey,
    ← show row.securityGeneration = token.securityGeneration from
      congrArg (fun key => key.2.2) hkey]
  -- in either case some earlier tables had the account at that generation or a later one
  have later : ∀ {s : Tables} {account : Account}, Grown s sys.tables →
      s.account row.accountID = some account →
      row.securityGeneration ≤ account.securityGeneration → ∃ account,
        sys.tables.account row.accountID = some account ∧
          row.securityGeneration ≤ account.securityGeneration := by
    intro s account grown haccount hle
    obtain ⟨account', haccount', hle'⟩ := grown.accounts _ account haccount
    exact ⟨account', haccount', Nat.le_trans hle hle'⟩
  rcases hrow with stored | ⟨id, txn, committed, inserted⟩
  · obtain ⟨account, haccount, hle⟩ := behind.tokens row stored purpose
    exact later (steps_grown (Engine.Sound.start tables clock) run) haccount hle
  · obtain ⟨before, after, hevents⟩ := List.append_of_mem committed
    obtain ⟨mid, first, active, ⟨reply, body⟩, last⟩ := Engine.Steps.split run hevents
    have sound := Engine.Run.sound first
    obtain ⟨e, he, -, account, haccount, hgen⟩ :=
      insertToken_ran (sound.finished active body) inserted
    refine later ?_ haccount (Nat.le_of_eq hgen.symm)
    refine (since_grown first active he).trans ((applyAll_grown (changesOf txn.trace) _).trans ?_)
    exact steps_grown (sound.erase id _) last

/-- A code that a committed transaction issued is known, and not ahead of its account. -/
theorem code_issued_known (run : securityEngine.Run tables clock events sys) {code : LinkCode}
    (issued : CodeIssued tables events code) : code.key ∈ sys.tables.keys := by
  rcases issued with stored | ⟨id, txn, committed, inserted⟩
  · exact (steps_grown (Engine.Sound.start tables clock) run).codes stored
  · obtain ⟨before, after, hevents⟩ := List.append_of_mem committed
    obtain ⟨mid, first, active, -, last⟩ := Engine.Steps.split run hevents
    refine (steps_grown ((Engine.Run.sound first).erase id _) last).codes ?_
    change code.key ∈ (applyAll Change.apply (changesOf txn.trace) mid.tables).keys
    obtain ⟨front, back, hchanges⟩ := List.append_of_mem inserted
    rw [hchanges, applyAll_append]
    refine (applyAll_grown back _).codes ?_
    rw [keys_insertCode]
    exact List.mem_append_right _ (List.mem_singleton_self _)

theorem confirmed_ran {input : TokenSessionRotation} {sessionID : Bytes}
    (task : txn.task = .confirmEmailChange input sessionID)
    (finished : securityEngine.Finished txn) : ∃ token e, confirmed txn = some token ∧
      e ∈ txn.trace ∧ .useToken token.tokenHash input.authenticatedAt ∈ e.changes ∧
      token ∈ e.seen.pendingChanges token.accountID := by
  obtain ⟨reply, h⟩ := finished
  change Reads Change.apply (txn.task.program txn.start) _ _ _ at h
  rw [task] at h
  obtain ⟨a, t₁, rest, htrace, hlock, h⟩ := h.bind
  obtain ⟨s₁, s₂, rfl⟩ := lockAccountForToken_ran hlock
  obtain ⟨_, s₃, rest, rfl, -, h⟩ := select_bind h
  obtain ⟨_, s₄, rest, rfl, -, h⟩ := select_bind h
  obtain ⟨⟨⟩, t₄, rest, rfl, hcheck, h⟩ := h.bind
  obtain ⟨rfl, -⟩ := checked_ran hcheck
  obtain ⟨_, t₅, rest, rfl, hconsume, -⟩ := h.bind
  obtain ⟨s₅, view, hview, rfl, hreply⟩ := hconsume.stmt
  obtain rfl : view = s₅ := hview
  split at hreply
  · next token htoken =>
    have usable := List.find?_some htoken
    simp only [AccountToken.usable, Bool.and_eq_true, beq_iff_eq, Option.isNone_iff_eq_none]
      at usable
    refine ⟨token, ⟨view, [⟨.token input.tokenHash, .noKeyUpdate⟩],
      [.useToken input.tokenHash input.authenticatedAt]⟩, ?_, by simp [htrace], ?_, ?_⟩
    · unfold confirmed
      rw [task, htrace]
      simp [htoken]
    · rw [usable.1.1.1]
      exact List.mem_singleton_self _
    · exact mem_pendingChanges.mpr
        ⟨List.mem_of_find?_eq_some htoken, rfl, usable.1.1.2, usable.1.2⟩
  · cases hreply

/-- A rotation of account `a` that can commit, and whether it disconnects. -/
theorem rotation_of_rotated {reply : Reply} (finished : Reads Change.apply (txn.task.program txn.start) []
      txn.trace (.done reply)) {a : Bytes} (rotated : txn.task.rotated reply = some a) :
    Rotation a txn.trace ∧ (txn.task.disconnected reply = some a → Disconnection a txn.trace) := by
  revert finished rotated
  cases task : txn.task with
  | createDesktopLink | createOrReplaceDesktopLink | redeemDesktopLink | createEmailChange =>
    intro _ rotated
    cases rotated
  | confirmEmailChange input sessionID =>
    intro h rotated
    obtain ⟨user, previous, rfl, rotation⟩ := confirmEmailChange_ran h
    cases rotated
    exact ⟨rotation, fun h => by cases h⟩
  | changePassword input sessionID =>
    intro h rotated
    cases rotated
    exact ⟨(changePassword_ran h).1, fun _ => (changePassword_ran h).2⟩
  | resetPassword input sessionID =>
    intro h rotated
    obtain ⟨user, rfl, rotation, gone⟩ := resetPassword_ran h
    cases rotated
    exact ⟨rotation, fun _ => gone⟩
  | revokeAllSessions accountID =>
    intro h rotated
    cases rotated
    exact ⟨(revokeAllSessions_ran h).1, fun _ => (revokeAllSessions_ran h).2⟩

theorem steps_connections (steps : securityEngine.Steps sys later sys')
    (nothing : ∀ row ∈ sys.tables.connections, row.accountID ≠ a) :
    ∀ row ∈ sys'.tables.connections, row.accountID = a →
      ∃ id txn, .committed id txn ∈ later ∧ .insertConnection row ∈ changesOf txn.trace := by
  refine steps.always (Q := fun es s => ∀ row ∈ s.tables.connections, row.accountID = a →
    ∃ id txn, .committed id txn ∈ es ∧ .insertConnection row ∈ changesOf txn.trace)
    (fun row hrow owner => absurd owner (nothing row hrow)) ?_
  intro es s shown s' _ ih next _ row hrow owner
  have old : row ∈ s.tables.connections → ∃ id txn, .committed id txn ∈ es ++ shown ∧
      .insertConnection row ∈ changesOf txn.trace := by
    intro hrow
    obtain ⟨id, txn, committed, inserted⟩ := ih row hrow owner
    exact ⟨id, txn, List.mem_append_left _ committed, inserted⟩
  cases next.does with
  | wait | begin | drop | run => exact old hrow
  | @commit k other reply active body =>
    by_cases inserted : .insertConnection row ∈ changesOf other.trace
    · exact ⟨k, other, by simp, inserted⟩
    · refine old (applyAll_keeps Change.apply (P := fun u => row ∈ u.connections →
        row ∈ s.tables.connections) (fun c hc u hu hrow => hu ?_) (fun h => h) hrow)
      cases c with
      | insertConnection new =>
        refine (List.mem_append.mp hrow).resolve_right fun hin => inserted ?_
        rw [List.mem_singleton.mp hin]
        exact hc
      | deleteConnections rows => exact (mem_deleteRows.mp hrow).1
      | _ => exact hrow

/-- What a rotation of account `a` takes: the codes and tokens for a new address that were
    issued `before` it are not used `later`, and a code that was issued in vain brings no
    connection. -/
structure CutOff (a : Bytes) (tables : Tables)
    (before later : List (Event SecurityTask Tables Change RowLock Err Reply)) : Prop where
  codes : ∀ code, CodeIssued tables before code → code.accountID = a →
    ∀ id txn, .committed id txn ∈ later → ¬ txn.task.redeems code
  tokens : ∀ id txn input sessionID, .committed id txn ∈ later →
    txn.task = .confirmEmailChange input sessionID → ∃ token, confirmed txn = some token ∧
      (token.accountID = a → ¬ TokenIssued tables before token)

/-- Every connection of account `a` was made `later`, with a code that was not issued
    `before`. -/
def Disconnected (a : Bytes) (tables : Tables)
    (before later : List (Event SecurityTask Tables Change RowLock Err Reply)) (now : Tables) :
    Prop :=
  ∀ row ∈ now.connections, row.accountID = a → ∃ id txn, .committed id txn ∈ later ∧
    .insertConnection row ∈ changesOf txn.trace ∧
    ∀ code, CodeIssued tables before code → code.accountID = a → ¬ txn.task.redeems code

/-- **Capabilities from before a rotation.** In every interleaving, whichever commit is a
    password change, a password reset, a revocation of all sessions or a change of address of
    account `a`: no code and no token for a new address of that account whose issuing
    transaction committed earlier is redeemed by a transaction that commits later. Unless it
    is a change of address, every connection of the account was made later too, with a later
    code. -/
theorem rotation_cuts_off (behind : tables.Behind)
    (run : securityEngine.Run tables clock (before ++ .committed id txn :: later) sys)
    {reply : Reply} (body : txn.program = .done reply) (rotated : txn.task.rotated reply = some a) :
    CutOff a tables before later ∧
      (txn.task.disconnected reply = some a → Disconnected a tables before later sys.tables) := by
  obtain ⟨mid, first, active, -, last⟩ := Engine.Steps.split run rfl
  have sound := Engine.Run.sound first
  have reads := sound.reads id txn active
  rw [body] at reads
  obtain ⟨rotation, disconnection⟩ := rotation_of_rotated reads rotated
  have finished : securityEngine.Finished txn := ⟨reply, reads⟩
  have run' : securityEngine.Run tables clock (before ++ [.committed id txn]) { mid with
      tables := applyAll Change.apply (changesOf txn.trace) mid.tables
      active := mid.active.erase id } := first.step (Engine.next_commit active body) trivial
  -- nobody else holds the account's row in a mode that excludes the rotation
  have unlocked : ∀ mode, LockMode.conflict mode .noKeyUpdate = true → ∀ k other,
      (mid.active.erase id).lookup k = some other → ⟨.account a, mode⟩ ∉ locksOf other.trace := by
    intro mode hmode k other hk held
    rw [Table.lookup_erase_eq] at hk
    split at hk
    · cases hk
    · next hne =>
      have := sound.apart k other id txn hk active hne _ held _ rotation.locked
      simp [securityEngine, engineOf, RowLock.conflict, hmode] at this
  have codes : ∀ code, CodeIssued tables before code → code.accountID = a →
      ∀ k other, .committed k other ∈ later → ¬ other.task.redeems code := by
    rintro code issued owner k other committed ⟨deviceName, tokenHash, expiresAt, deviceID, time,
      task⟩
    have known := code_issued_known first issued
    obtain ⟨account, haccount, hle⟩ :=
      (run_wf security_issues behind.toWF first).generations _ known
    rw [show code.key.2.1 = a from owner] at haccount
    obtain ⟨account', haccount', hlt⟩ := applyAll_generation rotation.generation haccount
    obtain ⟨es, there, path, active', reply', body'⟩ := Engine.Steps.committed last committed
    refine behind_not_redeemed security_issues behind.toWF run' path haccount'
      (unlocked .share rfl) owner (Nat.lt_of_le_of_lt hle hlt) active' body'
      (congrArg (fun task => SecurityTask.program task other.start) task) ?_
    exact (steps_grown (sound.erase id _) path).codes ((applyAll_grown _ _).codes known)
  refine ⟨⟨codes, ?_⟩, ?_⟩
  · intro k other input sessionID committed task
    obtain ⟨es, there, path, active', reply', body'⟩ := Engine.Steps.committed last committed
    have sound' := Engine.Run.sound run'
    have finished' := (Engine.Run.sound (run'.trans path)).finished active' body'
    obtain ⟨token, e, hconfirmed, he, uses, pending⟩ := confirmed_ran task finished'
    refine ⟨token, hconfirmed, fun owner issued => ?_⟩
    rw [owner] at pending
    obtain ⟨account, haccount, hle⟩ := token_issued_behind behind first issued
    rw [owner] at haccount
    obtain ⟨account', haccount', hlt⟩ := applyAll_generation rotation.generation haccount
    -- it used the token before the rotation committed, or after
    rcases Engine.Steps.ran path k other active' e he with ⟨old, hold, he⟩ |
      ⟨es, way, steps, htables⟩
    · rw [Table.lookup_erase_eq] at hold
      split at hold
      · cases hold
      · next hne =>
        exact rotation.excludes behind.toWF first active finished hold hne he uses pending
    · have fresh : Fresh a account.securityGeneration way.tables :=
        steps_fresh sound' steps haccount' hlt (unlocked .noKeyUpdate rfl) fun row hrow =>
          absurd hrow (rotation.clears behind.toWF first active row)
      rw [htables] at pending
      have := fresh token pending
      omega
  · intro disconnected row hrow owner
    have nothing := (disconnection disconnected).clears behind.toWF first active rotation
    obtain ⟨k, other, committed, inserted⟩ := steps_connections last nothing row hrow owner
    exact ⟨k, other, committed, inserted, fun code issued hcode =>
      codes code issued hcode k other committed⟩

end

/-! A run of a small database: a code and a token for a new address are issued, then all
sessions are revoked, and a desktop is connected with a new code. -/

namespace Demo

def verifiedTables : Tables where
  accounts := [⟨[1], utf8 "a@example.org", utf8 "hash", some 5, false, 0, none⟩]
  tokens := []
  sessions := [⟨[3], [4], [1], 1000, utf8 "Browser", 1, 1⟩]
  credentials := []
  connections := [⟨[5], [1], [6], utf8 "old laptop", 1000, 7, 7⟩]
  codes := []

theorem verifiedTables_behind : verifiedTables.Behind :=
  ⟨⟨List.nodup_nil, fun _ h => by cases h⟩, fun _ h => by cases h⟩

def revocation : List (Move SecurityTask) :=
  .begin (.createDesktopLink [7] [1] [8] 1000) :: List.replicate 3 (.advance 0) ++
  .begin (.createEmailChange [1] 0 (utf8 "b@example.org") [9] 1000) :: List.replicate 6 (.advance 1) ++
  .begin (.revokeAllSessions [1]) :: List.replicate 6 (.advance 2) ++
  .begin (.createOrReplaceDesktopLink [10] [1] 1 [11] 1000 12) :: List.replicate 4 (.advance 3) ++
  .begin (.redeemDesktopLink [11] (utf8 "new laptop") [13] 1000 [14] 15) ::
    List.replicate 6 (.advance 4)

def committedWith (p : SecurityTxn → Bool) : Event SecurityTask Tables Change RowLock Err Reply → Bool
  | .committed _ txn => p txn

def issues (codeHash : Bytes) : Change → Bool
  | .insertCode code => code.codeHash == codeHash
  | _ => false

end Demo

/-- The code and the token are issued before the revocation and cut off by it; the old
    connection is gone, and the one that is there was made with the new code. -/
theorem Demo.revocation_cuts_off : ∃ before id txn later sys,
    securityEngine.Run verifiedTables 10 (before ++ .committed id txn :: later) sys ∧
    txn.task = .revokeAllSessions [1] ∧ txn.program = .done .revoked ∧
    before.any (committedWith fun t => (changesOf t.trace).any (issues [8])) = true ∧
    CutOff [1] verifiedTables before later ∧
    Disconnected [1] verifiedTables before later sys.tables ∧
    sys.tables.connections.map (·.deviceID) = [[14]] := by
  have h : (securityEngine.play (Engine.start verifiedTables 10) revocation).any (fun r =>
      (r.1.take 2).any (committedWith fun t => (changesOf t.trace).any (issues [8])) &&
      r.2.tables.connections.map (·.deviceID) == [[14]] &&
      (r.1[2]?).any (committedWith fun t =>
        t.task == .revokeAllSessions [1] && t.program.reply? == some .revoked)) = true := by
    decide +kernel
  obtain ⟨⟨events, sys⟩, played, h⟩ := (Option.any_eq_true _ _).mp h
  rw [Bool.and_eq_true, Bool.and_eq_true] at h
  obtain ⟨⟨issued, connected⟩, third⟩ := h
  obtain ⟨⟨id, txn⟩, hthird, htxn⟩ := (Option.any_eq_true _ _).mp third
  change (txn.task == .revokeAllSessions [1] && txn.program.reply? == some .revoked) = true at htxn
  rw [Bool.and_eq_true, beq_iff_eq, beq_iff_eq] at htxn
  obtain ⟨hlength, hget⟩ := List.getElem?_eq_some_iff.mp hthird
  have split : events.take 2 ++ .committed id txn :: events.drop 3 = events := by
    rw [← hget, List.cons_getElem_drop_succ, List.take_append_drop]
  have run : securityEngine.Run verifiedTables 10
      (events.take 2 ++ .committed id txn :: events.drop 3) sys :=
    split.symm ▸ Engine.play_steps played
  have body := Program.reply?_eq htxn.2
  have rotated : txn.task.rotated .revoked = some [1] := by rw [htxn.1]; rfl
  obtain ⟨cut, gone⟩ := rotation_cuts_off verifiedTables_behind run body rotated
  exact ⟨_, id, txn, _, sys, run, htxn.1, body, issued, cut, gone (by rw [htxn.1]; rfl),
    beq_iff_eq.mp connected⟩

end Sesame.Accounts
