import SesameServer.Accounts.Calls

/- What commits do to the account tables, and what a statement may rely on until its
   transaction ends.

   1. `Grown`, `since_grown` — codes never lose their generation, accounts never go back.
   2. `IssuesCodes`, `run_wf` — where calls issue codes with the generation they saw, no code
      is ever ahead of its account.
   3. `redemption_at` — a redemption that commits read, under the account's lock, the
      generation of the code it redeems.
   4. `finished_cases` — a transaction of the four calls adds, issues one code, or verifies one
      account under that account's lock.
   5. `Undisturbed`, `since_undisturbed` — an account whose row is locked stays as it was
      seen, and so do its passkeys and connections. -/
namespace Sesame.Accounts
open ReadCommitted

/-! Codes and generations. -/

/-- What never changes of a code: its hash, its account and its generation. -/
def LinkCode.key (row : LinkCode) : Bytes × Bytes × Nat :=
  (row.codeHash, row.accountID, row.securityGeneration)

def Tables.keys (t : Tables) : List (Bytes × Bytes × Nat) := t.codes.map LinkCode.key

theorem keys_onCodes (t : Tables) (p : LinkCode → Bool) {f : LinkCode → LinkCode}
    (hf : ∀ row, (f row).key = row.key) : (t.onCodes p f).keys = t.keys := by
  unfold Tables.keys Tables.onCodes updateRows
  rw [List.map_map]
  refine List.map_congr_left fun row _ => ?_
  simp only [Function.comp_apply]
  split
  · exact hf row
  · rfl

variable {c : Change} {t : Tables} {a : Bytes}

theorem Change.keys_apply (h : ∀ code, c ≠ .insertCode code) (t : Tables) :
    (c.apply t).keys = t.keys := by
  cases c with
  | insertCode code => exact absurd rfl (h code)
  | cancelCodes | useCode | connectCode => exact keys_onCodes t _ fun _ => rfl
  | _ => rfl

theorem keys_insertCode (code : LinkCode) (t : Tables) : ((Change.insertCode code).apply t).keys =
    t.keys ++ [code.key] := by
  simp [Change.apply, Tables.keys]

/-- From `s` to `t` codes stay, with the hash, account and generation they had, and the
    generation of an account never goes back. -/
structure Grown (s t : Tables) : Prop where
  codes : s.keys ⊆ t.keys
  accounts : ∀ a row, s.account a = some row → ∃ row', t.account a = some row' ∧
    row.securityGeneration ≤ row'.securityGeneration

theorem Grown.refl (s : Tables) : Grown s s := ⟨fun _ h => h, fun _ row h => ⟨row, h, Nat.le_refl _⟩⟩

theorem Grown.trans {s u : Tables} (h : Grown s t) (h' : Grown t u) : Grown s u := by
  refine ⟨fun _ hkey => h'.codes (h.codes hkey), fun a row hrow => ?_⟩
  obtain ⟨row', hrow', hle⟩ := h.accounts a row hrow
  obtain ⟨row'', hrow'', hle'⟩ := h'.accounts a row' hrow'
  exact ⟨row'', hrow'', Nat.le_trans hle hle'⟩

theorem grown_onAccount (t : Tables) (id : Bytes) {f : Account → Account}
    (hid : ∀ row, (f row).id = row.id)
    (hgen : ∀ row, row.securityGeneration ≤ (f row).securityGeneration) :
    Grown t (t.onAccount id f) := by
  refine ⟨fun _ h => h, fun a row hrow => ?_⟩
  rw [account_onAccount t id a f hid, hrow]
  refine ⟨_, rfl, ?_⟩
  split
  · exact hgen row
  · exact Nat.le_refl _

theorem Change.grown (c : Change) (t : Tables) : Grown t (c.apply t) := by
  have codes : t.keys ⊆ (c.apply t).keys := by
    by_cases h : ∃ code, c = .insertCode code
    · obtain ⟨code, rfl⟩ := h
      rw [keys_insertCode]
      exact List.subset_append_left _ _
    · rw [c.keys_apply fun code hc => h ⟨code, hc⟩]
      exact fun _ h => h
  cases c with
  | setVerified | clearPassword | setPassword | setEmail =>
    exact grown_onAccount t _ (fun _ => rfl) fun _ => Nat.le_refl _
  | nextGeneration => exact grown_onAccount t _ (fun _ => rfl) fun _ => Nat.le_succ _
  | _ => exact ⟨codes, (Grown.refl t).accounts⟩

theorem applyAll_grown (changes : List Change) (t : Tables) :
    Grown t (applyAll Change.apply changes t) :=
  applyAll_keeps Change.apply (P := Grown t) (fun c _ u hu => hu.trans (c.grown u)) (Grown.refl t)

/-- A commit that moves the generation on leaves the account ahead of where it was. -/
theorem applyAll_generation {changes : List Change} (mem : .nextGeneration a ∈ changes)
    {row : Account} (account : t.account a = some row) : ∃ row',
      (applyAll Change.apply changes t).account a = some row' ∧
        row.securityGeneration < row'.securityGeneration := by
  obtain ⟨front, back, rfl⟩ := List.append_of_mem mem
  rw [applyAll_append]
  obtain ⟨mid, hmid, hle⟩ := (applyAll_grown front t).accounts a row account
  have moved : ((Change.nextGeneration a).apply (applyAll Change.apply front t)).account a =
      some { mid with securityGeneration := mid.securityGeneration + 1 } := by
    change (Tables.onAccount _ a fun row =>
      { row with securityGeneration := row.securityGeneration + 1 }).account a = _
    rw [account_onAccount, hmid]
    · simp
    · intro _; rfl
  obtain ⟨row', hrow', hle'⟩ := (applyAll_grown back _).accounts a _ moved
  exact ⟨row', hrow', Nat.lt_of_le_of_lt hle hle'⟩

/-! Codes along a run, whatever the calls are. -/

/-- Codes have distinct hashes, and none is ahead of its account. -/
structure Tables.WF (t : Tables) : Prop where
  hashes : (t.keys.map Prod.fst).Nodup
  generations : ∀ key ∈ t.keys, ∃ account, t.account key.2.1 = some account ∧
    key.2.2 ≤ account.securityGeneration

/-- One code comes, under a hash that was new and is locked, with the generation that the
    transaction saw of its account. -/
structure Issues (trace : List (Entry Tables Change RowLock)) (code : LinkCode) : Prop where
  keys : ∀ t : Tables,
    (applyAll Change.apply (changesOf trace) t).keys = t.keys ++ [code.key]
  inserted : ∃ front s locks back, trace = front ++ ⟨s, locks, [.insertCode code]⟩ :: back ∧
    ⟨.code code.codeHash, .update⟩ ∈ locks ∧ code.codeHash ∉ s.keys.map Prod.fst
  generation : ∃ e ∈ trace, ∃ account, e.seen.account code.accountID = some account ∧
    code.securityGeneration = account.securityGeneration

theorem Issues.locked {trace : List (Entry Tables Change RowLock)} {code : LinkCode}
    (h : Issues trace code) : ⟨.code code.codeHash, .update⟩ ∈ locksOf trace := by
  obtain ⟨front, s, locks, back, rfl, hlock, -⟩ := h.inserted
  exact mem_locksOf (e := ⟨s, locks, [.insertCode code]⟩) (by simp) hlock

theorem keys_applyAll {changes : List Change} (h : ∀ c ∈ changes, ∀ code, c ≠ .insertCode code)
    (t : Tables) : (applyAll Change.apply changes t).keys = t.keys :=
  applyAll_keeps Change.apply (P := fun u => u.keys = t.keys)
    (fun c hc u hu => (c.keys_apply (h c hc) u).trans hu) rfl

section
variable {τ : Type} {program : τ → Int → Sql Reply} {tables : Tables} {clock : Int}
  {events later : List (Event τ Tables Change RowLock Err Reply)}
  {sys sys' : System τ Tables Change RowLock Err Reply} {id : Nat}
  {txn : Txn τ Tables Change RowLock Err Reply}

/-- Every call that can commit issues no code, or one. -/
def IssuesCodes (program : τ → Int → Sql Reply) : Prop :=
  ∀ txn, (engineOf program).Finished txn →
    (∀ c ∈ changesOf txn.trace, ∀ code, c ≠ .insertCode code) ∨ ∃ code, Issues txn.trace code

/-- As long as a hash is locked nobody else brings a code under it. -/
theorem IssuesCodes.unissued (issues : IssuesCodes program) (h : (engineOf program).Finished txn)
    {codeHash : Bytes} (apart : ∀ l ∈ locksOf txn.trace, l.conflict ⟨.code codeHash, .update⟩ = false)
    (t : Tables) (hnot : codeHash ∉ t.keys.map Prod.fst) :
    codeHash ∉ (applyAll Change.apply (changesOf txn.trace) t).keys.map Prod.fst := by
  rcases issues txn h with none | ⟨code, issued⟩
  · rwa [keys_applyAll none]
  · have hne : code.codeHash ≠ codeHash := by
      intro e
      have := apart _ issued.locked
      simp [RowLock.conflict, e, LockMode.conflict] at this
    rw [issued.keys, List.map_append, List.mem_append]
    rintro (hin | hin)
    · exact hnot hin
    · exact hne (List.mem_singleton.mp hin).symm

/-- What a statement saw of the codes and the generations, the tables still have. -/
theorem since_grown (run : (engineOf program).Run tables clock events sys)
    {e : Entry Tables Change RowLock} (active : sys.active.lookup id = some txn)
    (ran : e ∈ txn.trace) : Grown e.seen sys.tables := by
  obtain ⟨before, after, ran⟩ := List.append_of_mem ran
  exact Engine.Run.since run (R := Grown) Grown.refl Grown.trans active ran
    fun _ _ _ _ => applyAll_grown _ _

theorem steps_grown (sound : (engineOf program).Sound sys)
    (steps : (engineOf program).Steps sys later sys') : Grown sys.tables sys'.tables :=
  Engine.Steps.tables steps sound Grown.refl Grown.trans fun _ _ s => applyAll_grown _ s

section
variable (issues : IssuesCodes program) (wf : tables.WF)
  (run : (engineOf program).Run tables clock events sys)
include issues wf run

theorem run_wf : sys.tables.WF := by
  refine run.always (Q := fun _ s => s.tables.WF) wf ?_
  rintro _ s _ s' run wf next -
  have sound := Engine.Run.sound run
  cases next.does with
  | wait | begin | drop | run => exact wf
  | @commit id txn reply active body =>
    change (applyAll Change.apply (changesOf txn.trace) s.tables).WF
    have grown := applyAll_grown (changesOf txn.trace) s.tables
    have finished := sound.finished active body
    -- old codes stay behind accounts that only move on
    have old : ∀ key ∈ s.tables.keys, ∃ account,
        (applyAll Change.apply (changesOf txn.trace) s.tables).account key.2.1 = some account ∧
          key.2.2 ≤ account.securityGeneration := by
      intro key hkey
      obtain ⟨account, haccount, hle⟩ := wf.generations key hkey
      obtain ⟨account', haccount', hle'⟩ := grown.accounts _ account haccount
      exact ⟨account', haccount', Nat.le_trans hle hle'⟩
    rcases issues txn finished with none | ⟨code, issued⟩
    · have same := keys_applyAll none s.tables
      exact ⟨by rw [same]; exact wf.hashes, by rw [same]; exact old⟩
    · -- the new code: its hash is still unused, and its generation was its account's
      obtain ⟨front, seen, locks, back, ran, hlock, fresh⟩ := issued.inserted
      have unissued : code.codeHash ∉ s.tables.keys.map Prod.fst := by
        refine Engine.Run.since run (R := fun s t => code.codeHash ∉ s.keys.map Prod.fst →
          code.codeHash ∉ t.keys.map Prod.fst) (fun _ h => h) (fun h h' hs => h' (h hs)) active
          ran (fun _ _ hother apart => ?_) fresh
        exact issues.unissued hother (fun l hl => apart l hl _ (by simp [locksOf, hlock])) _
      obtain ⟨e, he, account, haccount, hgen⟩ := issued.generation
      obtain ⟨account', haccount', hle⟩ :=
        ((since_grown run active he).trans grown).accounts _ account haccount
      constructor
      · rw [issued.keys, List.map_append, List.nodup_append]
        refine ⟨wf.hashes, by simp, fun x hx y hy e => ?_⟩
        rw [List.map_singleton, List.mem_singleton] at hy
        rw [e, hy] at hx
        exact unissued hx
      · rw [issued.keys]
        intro key hkey
        rcases List.mem_append.mp hkey with hkey | hkey
        · exact old key hkey
        · rw [List.mem_singleton.mp hkey]
          exact ⟨account', haccount', Nat.le_trans (Nat.le_of_eq hgen) hle⟩

/-- A redemption of a known code that can commit: it locked the code's account, shared, and
    read the generation of the code there. -/
theorem redemption_at (active : sys.active.lookup id = some txn) (finished : (engineOf program).Finished txn)
    (code : LinkCode) {deviceName tokenHash deviceID : Bytes} {expiresAt time : Int}
    (task : program txn.task txn.start = redeemDesktopLink code.codeHash deviceName tokenHash
      expiresAt deviceID time txn.start)
    (known : code.key ∈ sys.tables.keys) :
    ∃ s account, ⟨s, [⟨.account code.accountID, .share⟩], []⟩ ∈ txn.trace ∧
      s.account code.accountID = some account ∧
      account.securityGeneration = code.securityGeneration := by
  obtain ⟨reply, reads⟩ := finished
  change Reads Change.apply (program txn.task txn.start) _ _ _ at reads
  rw [task] at reads
  obtain ⟨s₁, s₂, s₃, l₃, rest, first, found, seen, htrace, hfirst, firstHash, haccount, hfound,
    foundHash, hgen⟩ := redeemDesktopLink_ran reads
  -- the row it looked up, the row it used and the code are one
  have one : ∀ e ∈ txn.trace, ∀ row ∈ e.seen.codes, row.codeHash = code.codeHash →
      row.key = code.key := fun e he row hrow hhash =>
    List.inj_on_of_nodup_map (run_wf issues wf run).hashes
      ((since_grown run active he).codes (List.mem_map_of_mem hrow)) known hhash
  have hone : first.key = code.key := one ⟨s₁, [], []⟩ (by simp [htrace]) first hfirst firstHash
  have hused : found.key = code.key :=
    one ⟨s₃, l₃, [.useCode code.codeHash txn.start]⟩ (by simp [htrace]) found hfound foundHash
  have owner : first.accountID = code.accountID := congrArg (fun key => key.2.1) hone
  rw [owner] at htrace haccount
  exact ⟨s₂, seen, by simp [htrace], haccount,
    hgen.symm.trans (congrArg (fun key => key.2.2) hused)⟩

/-- Nobody redeems a code that is behind its account, once every redemption under way has
    yet to lock the account. -/
theorem behind_not_redeemed (steps : (engineOf program).Steps sys later sys') {row : Account}
    (account : sys.tables.account a = some row)
    (unshared : ∀ id txn, sys.active.lookup id = some txn →
      ⟨.account a, .share⟩ ∉ locksOf txn.trace) {code : LinkCode} (owner : code.accountID = a)
    (behind : code.securityGeneration < row.securityGeneration)
    (active : sys'.active.lookup id = some txn) {reply : Reply} (body : txn.program = .done reply)
    {deviceName tokenHash deviceID : Bytes} {expiresAt time : Int}
    (task : program txn.task txn.start = redeemDesktopLink code.codeHash deviceName tokenHash
      expiresAt deviceID time txn.start) : code.key ∉ sys'.tables.keys := by
  intro known
  obtain ⟨s, seen, ran, hseen, hgen⟩ :=
    redemption_at issues wf (run.trans steps) active
      ((Engine.Run.sound (run.trans steps)).finished active body) code task known
  rw [owner] at ran hseen
  -- it locked the account after all this, so it read a later generation
  have grown : Grown sys.tables s := by
    refine Engine.Steps.saw steps (Engine.Run.sound run) Grown.refl Grown.trans
      (fun _ _ s => applyAll_grown _ s) (Q := fun e => ⟨.account a, .share⟩ ∈ e.locks)
      (fun k t hk e he hq => unshared k t hk (mem_locksOf he hq)) id txn active _ ran (by simp)
  obtain ⟨row', hrow', hle⟩ := grown.accounts a row account
  obtain rfl : seen = row' := Option.some.inj (hseen.symm.trans hrow')
  omega

end

end

/-! What a commit of the four calls can do. -/

section
variable {verifyPassword : Bytes → Bytes → Bool}

abbrev AccountTxn := Txn Task Tables Change RowLock Err Reply

variable {txn : AccountTxn}

/-- A transaction that can commit adds, issues one code, or verifies one account under that
    account's lock. -/
theorem finished_cases (h : (engine verifyPassword).Finished txn) :
    (∀ c ∈ changesOf txn.trace, c.Adds) ∨
    (∃ code, changesOf txn.trace = [.insertCode code] ∧ Issues txn.trace code) ∨
    (∃ a, ⟨.account a, .noKeyUpdate⟩ ∈ locksOf txn.trace ∧ ∀ c ∈ changesOf txn.trace, c.Of a) := by
  obtain ⟨reply, h⟩ := h
  obtain ⟨task, start, program, trace⟩ := txn
  dsimp only at h ⊢
  cases task with
  | addCredential accountID credentialID credential name =>
    exact .inl (h.emits (addCredential_adds accountID credentialID credential name start))
  | redeemDesktopLink codeHash deviceName tokenHash expiresAt deviceID clock =>
    exact .inl (h.emits (redeemDesktopLink_adds codeHash deviceName tokenHash expiresAt deviceID
      clock start))
  | createDesktopLink id accountID codeHash expiresAt =>
    obtain ⟨s, s', locks, account, haccount, hlock, fresh, rfl⟩ := createDesktopLink_ran h
    refine .inr (.inl ⟨_, rfl, fun t => keys_insertCode _ t, ⟨[_], s', locks, [], rfl, hlock, ?_⟩,
      _, List.mem_cons_self, account, haccount, rfl⟩)
    simpa [Tables.keys, LinkCode.key] using fresh
  | verifyEmail input sessionID =>
    obtain ⟨a, user, row, s₁, s₂, s₃, s₄, s₅, l₃, rest, keep, -, -, hof, -, -, rfl, -⟩ :=
      verifyEmail_opens h
    exact .inr (.inr ⟨a, by simp [locksOf], hof⟩)

/-- From `s` to `t` nobody changed the row of account `a`, and its passkeys and connections
    all stayed. -/
structure Undisturbed (a : Bytes) (s t : Tables) : Prop where
  account : t.account a = s.account a
  credentials : ∀ row ∈ s.credentials, row.accountID = a → row ∈ t.credentials
  connections : ∀ row ∈ s.connections, row.accountID = a → row ∈ t.connections

theorem Undisturbed.refl (a : Bytes) (s : Tables) : Undisturbed a s s :=
  ⟨rfl, fun _ h _ => h, fun _ h _ => h⟩

theorem Undisturbed.trans {s u : Tables} (h : Undisturbed a s t) (h' : Undisturbed a t u) :
    Undisturbed a s u :=
  ⟨h'.account.trans h.account, fun row hrow ha => h'.credentials row (h.credentials row hrow ha) ha,
    fun row hrow ha => h'.connections row (h.connections row hrow ha) ha⟩

theorem mem_deleteRows {α : Type} [DecidableEq α] {gone rows : List α} {row : α} :
    row ∈ deleteRows gone rows ↔ row ∈ rows ∧ row ∉ gone := by
  simp [deleteRows]

theorem Change.Adds.undisturbed (h : c.Adds) (a : Bytes) (t : Tables) :
    Undisturbed a t (c.apply t) := by
  cases c with
  | insertCredential row => exact ⟨rfl, fun _ hrow _ => List.mem_append_left _ hrow, fun _ h _ => h⟩
  | insertConnection row => exact ⟨rfl, fun _ h _ => h, fun _ hrow _ => List.mem_append_left _ hrow⟩
  | useCode | connectCode => exact ⟨rfl, fun _ h _ => h, fun _ h _ => h⟩
  | _ => cases h

theorem Change.Of.undisturbed {b : Bytes} (h : c.Of b) (hne : a ≠ b) (t : Tables) :
    Undisturbed a t (c.apply t) := by
  have other : ∀ f : Account → Account, (∀ row, (f row).id = row.id) →
      Undisturbed a t (t.onAccount b f) := by
    intro f hf
    refine ⟨?_, fun _ h _ => h, fun _ h _ => h⟩
    rw [account_onAccount t b a f hf]
    simp [hne]
  cases c with
  | setVerified | nextGeneration | clearPassword =>
    obtain rfl := h
    exact other _ fun _ => rfl
  | deleteCredentials rows =>
    refine ⟨rfl, fun row hrow ha => mem_deleteRows.mpr ⟨hrow, fun hgone => ?_⟩, fun _ h _ => h⟩
    exact hne (ha.symm.trans (h row hgone))
  | deleteConnections rows =>
    refine ⟨rfl, fun _ h _ => h, fun row hrow ha => mem_deleteRows.mpr ⟨hrow, fun hgone => ?_⟩⟩
    exact hne (ha.symm.trans (h row hgone))
  | useToken | deleteTokens | insertSession | deleteSessions | cancelCodes =>
    exact ⟨rfl, fun _ h _ => h, fun _ h _ => h⟩
  | _ => cases h

/-- Whoever commits while the row of account `a` is locked, shared or not, leaves it alone. -/
theorem finished_undisturbed (h : (engine verifyPassword).Finished txn) {mode : LockMode}
    (hmode : LockMode.noKeyUpdate.conflict mode = true)
    (apart : ∀ l ∈ locksOf txn.trace, l.conflict ⟨.account a, mode⟩ = false) (t : Tables) :
    Undisturbed a t (applyAll Change.apply (changesOf txn.trace) t) := by
  refine applyAll_keeps Change.apply (P := Undisturbed a t) (fun c hc u hu => hu.trans ?_)
    (Undisturbed.refl a t)
  rcases finished_cases h with adds | ⟨code, hchanges, -⟩ | ⟨b, hlock, hof⟩
  · exact (adds c hc).undisturbed a u
  · rw [hchanges] at hc
    rw [List.mem_singleton.mp hc]
    exact ⟨rfl, fun _ h _ => h, fun _ h _ => h⟩
  · refine (hof c hc).undisturbed (fun hab => ?_) u
    subst hab
    have := apart _ hlock
    simp [RowLock.conflict, hmode] at this

theorem task_issues : IssuesCodes (Task.program verifyPassword) := by
  intro txn h
  rcases finished_cases h with adds | ⟨code, -, issued⟩ | ⟨a, -, hof⟩
  · exact .inl fun c hc code e => by have := adds c hc; rw [e] at this; exact this
  · exact .inr ⟨code, issued⟩
  · exact .inl fun c hc code e => by have := hof c hc; rw [e] at this; exact this

/-- What a statement saw of an account whose row its transaction had locked stands. -/
theorem since_undisturbed {tables : Tables} {clock : Int}
    {events : List (Event Task Tables Change RowLock Err Reply)}
    {sys : System Task Tables Change RowLock Err Reply} {id : Nat}
    (run : (engine verifyPassword).Run tables clock events sys)
    {before after : List (Entry Tables Change RowLock)} {e : Entry Tables Change RowLock}
    (active : sys.active.lookup id = some txn) (ran : txn.trace = before ++ e :: after)
    {mode : LockMode} (hmode : LockMode.noKeyUpdate.conflict mode = true)
    (locked : ⟨.account a, mode⟩ ∈ locksOf (before ++ [e])) : Undisturbed a e.seen sys.tables :=
  Engine.Run.since run (R := Undisturbed a) (Undisturbed.refl a) Undisturbed.trans active ran
    fun _ _ finished apart => finished_undisturbed finished hmode
      (fun l hl => apart l hl _ locked) _

end

end Sesame.Accounts
