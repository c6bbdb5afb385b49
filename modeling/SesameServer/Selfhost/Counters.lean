import SesameServer.Selfhost.System

/- Each code is consumed once. `Login` and `StepUp` read an owner's credentials, check the
   password, which takes long, and only then open the transaction that takes the counter;
   `CompleteSetup` does the same with its token. What the transaction checks again is the
   counter, the password hash and that the owner is not removed.

   1. `OwnerFrom` — where an owner's row after a step comes from.
   2. `Counted` — the invariant: a counter that was accepted for the hash an owner has now is
      at most the one in the row, and a call whose owner was reset, removed or set up since
      it read has another hash than the row, or the row has none.
   3. `codes_consumed_once` — the two statements about runs. -/
namespace Sesame.Selfhost
open Outcome History

def Event.owner : Event → Option Bytes
  | .reset owner => some owner
  | .removed owner => some owner
  | .completed _ _ owner _ _ => some owner
  | .accepted _ owner _ _ => some owner
  | _ => none

/-- The owner, the credential and the counter of a code that was accepted. -/
def Event.accepts : Event → Option (Bytes × Credential × Int)
  | .completed _ _ owner credential counter => some (owner, credential, counter)
  | .accepted _ owner credential counter => some (owner, credential, counter)
  | _ => none

/-- The owner was reset, removed or given a new password hash. -/
def Event.Replaces (owner : Bytes) (e : Event) : Prop :=
  e = .reset owner ∨ e = .removed owner ∨
    ∃ n token credential counter, e = .completed n token owner credential counter

variable {e : Event} {credential : Credential} {id hash : Bytes} {row : Owner} {n : Nat}

theorem Event.accepts_owner {owner : Bytes} {counter : Int}
    (h : e.accepts = some (owner, credential, counter)) : e.owner = some owner := by
  cases e <;> simp_all [Event.accepts, Event.owner]

theorem Event.Replaces.owner {owner : Bytes} (h : e.Replaces owner) : e.owner = some owner := by
  rcases h with rfl | rfl | ⟨n, token, credential, counter, rfl⟩ <;> rfl

/-! Owners' rows. -/

/-- Where the row that the owner `id` has after a step comes from. -/
inductive OwnerFrom (shown : List Event) (id : Bytes) : Option Owner → Owner → Prop
  | kept {row : Owner} (still : ∀ e ∈ shown, e.owner ≠ some id) : OwnerFrom shown id (some row) row
  | bare {old : Option Owner} {row : Owner} (credential : row.credential = none) :
      OwnerFrom shown id old row
  | completed {old : Option Owner} {row : Owner} {n : Nat} {token : Bytes} {credential : Credential}
      (eq : shown = [.completed n token id credential row.totpLastCounter])
      (credential : row.credential = some credential) : OwnerFrom shown id old row
  | accepted {old row : Owner} {n : Nat} {read : Credential}
      (eq : shown = [.accepted n id read row.totpLastCounter])
      (later : old.totpLastCounter < row.totpLastCounter) (same : row.credential = old.credential)
      (hash : old.credential.map (·.passwordHash) = some read.passwordHash)
      (standing : old.removedAt = none) : OwnerFrom shown id (some old) row

variable {svc : Service} {env : Env} {db db' : Db} {es shown : List Event} {s s' : System}

theorem ownerFrom_insert {owners : Table Bytes Owner} {k : Bytes} {new : Owner}
    (h : (owners.insert id new).lookup k = some row)
    (still : k ≠ id → ∀ e ∈ shown, e.owner ≠ some k)
    (written : k = id → OwnerFrom shown id (owners.lookup id) new) :
    OwnerFrom shown k (owners.lookup k) row := by
  rcases Table.lookup_insert_some.mp h with ⟨rfl, rfl⟩ | ⟨hne, h⟩
  · exact written rfl
  · rw [h]
    exact .kept (still hne)

theorem ownerFrom_cleared {owners : Table Bytes Owner} {k : Bytes} {f : Owner → Owner}
    (h : (owners.updateWhere (fun k _ => k == id) f).lookup k = some row)
    (cleared : ∀ o, (f o).credential = none) (still : k ≠ id → ∀ e ∈ shown, e.owner ≠ some k) :
    OwnerFrom shown k (owners.lookup k) row := by
  obtain ⟨old, hold, hif⟩ := Table.lookup_updateWhere_some.mp h
  split at hif
  · exact .bare (hif ▸ cleared old)
  · next hne =>
    rw [hold, hif]
    exact .kept (still (by simpa using hne))

theorem Effect.owner (effect : Effect svc env db shown db') (h : db'.owners.lookup id = some row) :
    OwnerFrom shown id (db.owners.lookup id) row := by
  cases effect with
  | invited => exact ownerFrom_insert h (fun _ => by simp [Event.owner]) fun _ => .bare rfl
  | reset | removed =>
    exact ownerFrom_cleared h (fun _ => rfl) fun hne => by simp [Event.owner, hne.symm]
  | completed lookup unused installed =>
    cases installed with
    | first _ _ _ nameKey eq | pending _ _ _ _ eq =>
      rw [eq] at h
      exact ownerFrom_insert h (fun hne => by simp [Event.owner, hne.symm]) fun _ =>
        .completed rfl rfl
  | accepted lookup later hash standing =>
    refine ownerFrom_insert h (fun hne => by simp [Event.owner, hne.symm]) fun _ => ?_
    rw [lookup]
    exact .accepted rfl later rfl hash standing
  | maintained =>
    have kept : db.owners.lookup id = some row := (Table.lookup_deleteWhere_some.mp h).1
    rw [kept]
    exact .kept (by simp)
  | first | shown | detailed | quiet | memberAdded | memberRenamed | memberRemoved | paired | connected =>
    rw [show db.owners.lookup id = some row from h]
    exact .kept (by simp [Event.owner])

theorem Next.owner (next : Next svc s shown s') (h : s'.db.owners.lookup id = some row) :
    OwnerFrom shown id (s.db.owners.lookup id) row := by
  rcases next.effect with ⟨hdb, -, hbegan⟩ | ⟨env, -, -, effect⟩
  · rw [hdb] at h
    rw [h]
    refine .kept fun e he => ?_
    obtain ⟨n, owner, rfl⟩ := hbegan e he
    simp [Event.owner]
  · exact effect.owner h

/-! Pending calls. -/

/-- The credentials that a `Login` or `StepUp` has read. -/
def Pending.read : Pending → Option Credentials
  | .login p => some p.found
  | .stepUp p => some p.found
  | _ => none

/-- The owner is not removed and has the password hash that was read. -/
def Db.Holds (db : Db) (read : Credentials) : Prop :=
  ∃ row, db.owners.lookup read.id = some row ∧ row.removedAt = none ∧
    row.credential.map (·.passwordHash) = some read.credential.passwordHash

theorem ownerCredentials_some {where_ : Bytes → Owner → Bool} {found : Credentials}
    (h : ownerCredentials db where_ = some found) :
    ∃ row, db.owners.lookup found.id = some row ∧ row.removedAt = none ∧
      row.credential = some found.credential := by
  simp only [ownerCredentials, Option.bind_eq_bind, Option.bind_eq_some_iff] at h
  obtain ⟨⟨id, o⟩, hfind, credential, hcredential, hfound⟩ := h
  obtain ⟨hlookup, hcond⟩ := Table.find?_some hfind
  cases hfound
  simp only [Owner.active, Bool.and_eq_true, Option.isNone_iff_eq_none] at hcond
  exact ⟨o, hlookup, hcond.1.1, hcredential⟩

theorem elim_error_ok {α : Type} {o : Option α} {e : Err} {a : α}
    (h : o.elim (.error e) Except.ok = .ok a) : o = some a := by
  cases o with
  | none => cases h
  | some b =>
    cases h
    rfl

theorem prepareLogin_ok {input : LoginInput} {p : PreparedLogin}
    (h : prepareLogin svc env input db = .ok p) :
    ∃ row, db.owners.lookup p.found.id = some row ∧ row.removedAt = none ∧
      row.credential = some p.found.credential := by
  simp only [prepareLogin, except_bind_ok] at h
  obtain ⟨name, -, _, -, found, hfound, counter, -, hp⟩ := h
  cases hp
  exact ownerCredentials_some (elim_error_ok hfound)

theorem prepareStepUp_ok {input : StepUpInput} {current : OwnerSession} {p : PreparedStepUp}
    (h : prepareStepUp svc env input current db = .ok p) :
    ∃ row, db.owners.lookup p.found.id = some row ∧ row.removedAt = none ∧
      row.credential = some p.found.credential := by
  simp only [prepareStepUp, except_bind_ok] at h
  obtain ⟨found, hfound, counter, -, hp⟩ := h
  cases hp
  exact ownerCredentials_some (elim_error_ok hfound)

theorem Next.read (next : Next svc s shown s') {call : Pending} {read : Credentials}
    (h : s'.calls.lookup n = some call) (hread : call.read = some read) :
    s.calls.lookup n = some call ∨ shown = [.began n read.id] ∧ s'.db = s.db ∧
      ∃ row, s.db.owners.lookup read.id = some row ∧ row.removedAt = none ∧
        row.credential = some read.credential := by
  cases next with
  | op => exact .inl h
  | readToken | readSession | prepareSetup =>
    rcases Table.lookup_insert_some.mp h with ⟨-, rfl⟩ | ⟨-, h⟩
    · cases hread
    · exact .inl h
  | readLogin run =>
    rcases Table.lookup_insert_some.mp h with ⟨rfl, rfl⟩ | ⟨-, h⟩
    · cases hread
      exact .inr ⟨rfl, rfl, prepareLogin_ok run⟩
    · exact .inl h
  | readStepUp call run =>
    rcases Table.lookup_insert_some.mp h with ⟨rfl, rfl⟩ | ⟨-, h⟩
    · cases hread
      exact .inr ⟨rfl, rfl, prepareStepUp_ok run⟩
    · exact .inl h
  | commitSetup | commitLogin | commitStepUp | giveUp =>
    exact .inl (Table.lookup_erase_some.mp h).2

theorem prepareSetup_ok {input : CompleteSetupInput} {found : FoundToken} {p : PreparedSetup}
    (h : prepareSetup svc env input found = .ok p) :
    p.found = found ∧ found.secret = some p.secret := by
  simp only [prepareSetup, except_bind_ok] at h
  obtain ⟨name, -, secret, hsecret, plain, -, counter, -, hp⟩ := h
  cases hp
  exact ⟨rfl, elim_error_ok hsecret⟩

/-- A setup that is prepared was so before, or has its secret from its token and its password
    hash from now. -/
theorem Next.setup (next : Next svc s shown s') {p : PreparedSetup}
    (h : s'.calls.lookup n = some (.setup p)) : s.calls.lookup n = some (.setup p) ∨
      shown = [] ∧ p.found.secret = some p.secret ∧ p.passwordHash ∉ s.hashes ∧
        p.passwordHash ∈ s'.hashes ∧
        ∀ m q, s'.calls.lookup m = some (.setup q) → m ≠ n → s.calls.lookup m = some (.setup q) := by
  cases next with
  | op => exact .inl h
  | readToken | readSession | readLogin | readStepUp =>
    rcases Table.lookup_insert_some.mp h with ⟨-, hp⟩ | ⟨-, h⟩
    · cases hp
    · exact .inl h
  | prepareSetup call first run fresh =>
    rcases Table.lookup_insert_some.mp h with ⟨rfl, hp⟩ | ⟨-, h⟩
    · cases hp
      obtain ⟨rfl, hsecret⟩ := prepareSetup_ok run
      refine .inr ⟨rfl, hsecret, fresh, by simp, fun m q hm hne => ?_⟩
      rcases Table.lookup_insert_some.mp hm with ⟨heq, -⟩ | ⟨-, hm⟩
      · exact absurd heq hne
      · exact hm
    · exact .inl h
  | commitSetup | commitLogin | commitStepUp | giveUp =>
    exact .inl (Table.lookup_erase_some.mp h).2

theorem Next.hashes (next : Next svc s shown s') (h : hash ∈ s.hashes) : hash ∈ s'.hashes := by
  cases next with
  | prepareSetup => exact List.mem_append_left _ h
  | _ => exact h

theorem Op.run_accepts {op : Op} (h : op.run svc env db = .ok shown db') :
    ∀ e ∈ shown, e.accepts = none := by
  cases op <;> simp only [Op.run, bind_ok, pure_ok] at h <;> obtain ⟨_, _, -, rfl, -⟩ := h <;>
    simp [Event.accepts]

theorem Next.accepts (next : Next svc s shown s') (he : e ∈ shown) {owner : Bytes} {counter : Int}
    (h : e.accepts = some (owner, credential, counter)) :
    shown = [e] ∧ ((∃ n token p, e = .completed n token owner credential counter ∧
        s.calls.lookup n = some (.setup p) ∧ p.credential = credential ∧
        s'.calls.lookup n = none) ∨
      ∃ n call read row, e = .accepted n owner credential counter ∧
        s.calls.lookup n = some call ∧ call.read = some read ∧ read.id = owner ∧
        read.credential = credential ∧ s.db.owners.lookup owner = some row ∧
        row.totpLastCounter < counter ∧ row.removedAt = none ∧
        row.credential.map (·.passwordHash) = some credential.passwordHash) := by
  cases next with
  | op draws run =>
    rw [Op.run_accepts run e he] at h
    cases h
  | readToken | readSession | prepareSetup | giveUp => cases he
  | readLogin | readStepUp =>
    rw [List.mem_singleton.mp he] at h
    cases h
  | commitSetup call draws run =>
    obtain rfl := List.mem_singleton.mp he
    cases h
    exact ⟨rfl, .inl ⟨_, _, _, rfl, call, rfl, AList.lookup_erase _ _⟩⟩
  | commitLogin call draws run =>
    obtain rfl := List.mem_singleton.mp he
    obtain ⟨row, session, log, lookup, later, hash, standing, -⟩ := commitLogin_ok run
    cases h
    exact ⟨rfl, .inr ⟨_, _, _, row, rfl, call, rfl, rfl, rfl, lookup, later, standing, hash⟩⟩
  | commitStepUp call draws run =>
    obtain rfl := List.mem_singleton.mp he
    obtain ⟨row, session, log, lookup, later, hash, standing, -⟩ := commitStepUp_ok run
    cases h
    exact ⟨rfl, .inr ⟨_, _, _, row, rfl, call, rfl, rfl, rfl, lookup, later, standing, hash⟩⟩

/-! The invariant. -/

/-- A code was accepted for a credential with this password hash. -/
def Used (es : List Event) (hash : Bytes) : Prop :=
  ∃ e ∈ es, ∃ owner credential counter, e.accepts = some (owner, credential, counter) ∧
    credential.passwordHash = hash

/-- The counters that the two accept for one owner and one password hash are in order. -/
def InOrder (e e' : Event) : Prop := ∀ owner credential credential' counter counter',
  e.accepts = some (owner, credential, counter) →
  e'.accepts = some (owner, credential', counter') →
  credential.passwordHash = credential'.passwordHash → counter < counter'

structure Counted (es : List Event) (s : System) : Prop where
  order : es.Pairwise InOrder
  used : ∀ hash, Used es hash → hash ∈ s.hashes
  /-- A prepared setup has a hash of its own, for which no code was accepted. -/
  setups : ∀ n p, s.calls.lookup n = some (.setup p) → p.passwordHash ∈ s.hashes ∧
    ¬Used es p.passwordHash ∧
    ∀ m q, s.calls.lookup m = some (.setup q) → q.passwordHash = p.passwordHash → m = n
  /-- The row has the last counter that was accepted for its hash. -/
  rows : ∀ id row credential, s.db.owners.lookup id = some row → row.credential = some credential →
    Used es credential.passwordHash ∧ ∀ e ∈ es, ∀ credential' counter,
      e.accepts = some (id, credential', counter) →
      credential'.passwordHash = credential.passwordHash → counter ≤ row.totpLastCounter
  /-- A call that has read is stale once its owner is reset, removed or set up. -/
  reads : ∀ n call read, s.calls.lookup n = some call → call.read = some read →
    Used es read.credential.passwordHash ∧
    (s.db.Holds read → ClearSince (.began n read.id) (fun e => ¬e.Replaces read.id) es)

theorem Used.append (h : Used es hash) : Used (es ++ shown) hash := by
  obtain ⟨e, he, h⟩ := h
  exact ⟨e, List.mem_append_left _ he, h⟩

theorem Used.cases (h : Used (es ++ shown) hash) : Used es hash ∨ Used shown hash := by
  obtain ⟨e, he, h⟩ := h
  rcases List.mem_append.mp he with he | he
  · exact .inl ⟨e, he, h⟩
  · exact .inr ⟨e, he, h⟩

theorem Counted.init : Counted [] .init where
  order := .nil
  used _ h := by
    obtain ⟨e, he, -⟩ := h
    cases he
  setups _ _ h := by cases h
  rows _ _ _ h := by cases h
  reads _ _ _ h := by cases h

section
variable (counted : Counted es s) (next : Next svc s shown s')
include counted next

/-- A hash for which a code is accepted in this step was in use, or a setup had it ready. -/
theorem Counted.used_now (h : Used shown hash) :
    Used es hash ∨ ∃ n p, s.calls.lookup n = some (.setup p) ∧
      p.passwordHash = hash ∧ s'.calls.lookup n = none := by
  obtain ⟨e, he, owner, credential, counter, haccepts, rfl⟩ := h
  obtain ⟨-, ⟨n, token, p, -, hcall, rfl, herased⟩ | ⟨n, call, read, row, -, hcall, hread, -, rfl, -⟩⟩ :=
    next.accepts he haccepts
  · exact .inr ⟨n, p, hcall, rfl, herased⟩
  · exact .inl (counted.reads n call read hcall hread).1

theorem Counted.next_order : (es ++ shown).Pairwise InOrder := by
  refine List.pairwise_append.mpr ⟨counted.order, ?_, ?_⟩
  · -- a step accepts one code at most
    by_cases hacc : ∃ e ∈ shown, ∃ owner credential counter,
        e.accepts = some (owner, credential, counter)
    · obtain ⟨e, he, owner, credential, counter, haccepts⟩ := hacc
      rw [(next.accepts he haccepts).1]
      exact List.pairwise_singleton _ _
    · refine List.pairwise_of_forall_mem_list fun e he e' _ owner credential _ counter _ h => ?_
      exact absurd ⟨e, he, owner, credential, counter, h⟩ hacc
  · intro e he e' he' owner credential credential' counter counter' h h' hhash
    obtain ⟨-, ⟨n, token, p, -, hcall, rfl, -⟩ | ⟨n, call, read, row, -, hcall, hread, -, -, hrow, hlater,
      -, hrowhash⟩⟩ := next.accepts he' h'
    · exact absurd ⟨e, he, owner, credential, counter, h, hhash⟩ (counted.setups n p hcall).2.1
    · obtain ⟨current, hcurrent, hcurrenthash⟩ := Option.map_eq_some_iff.mp hrowhash
      have hle := (counted.rows owner row current hrow hcurrent).2 e he credential counter h
        (hhash.trans hcurrenthash.symm)
      omega

theorem Counted.next_used (h : Used (es ++ shown) hash) : hash ∈ s'.hashes := by
  rcases h.cases with h | h
  · exact next.hashes (counted.used hash h)
  · rcases counted.used_now next h with h | ⟨n, p, hcall, rfl, -⟩
    · exact next.hashes (counted.used hash h)
    · exact next.hashes (counted.setups n p hcall).1

theorem Counted.next_setups {p : PreparedSetup} (h : s'.calls.lookup n = some (.setup p)) :
    p.passwordHash ∈ s'.hashes ∧ ¬Used (es ++ shown) p.passwordHash ∧
      ∀ m q, s'.calls.lookup m = some (.setup q) → q.passwordHash = p.passwordHash → m = n := by
  rcases next.setup h with hcall | ⟨rfl, -, hfresh, hmade, hothers⟩
  · obtain ⟨hmade, hunused, halone⟩ := counted.setups n p hcall
    refine ⟨next.hashes hmade, fun hused => ?_, fun m q hm hq => ?_⟩
    · rcases hused.cases with hused | hused
      · exact hunused hused
      · rcases counted.used_now next hused with hused | ⟨m, q, hm, hq, hgone⟩
        · exact hunused hused
        · -- the setup that committed had the same hash, so it is this one, which is gone
          rw [halone m q hm hq, h] at hgone
          cases hgone
    · rcases next.setup hm with hm | ⟨-, -, hfresh, -, -⟩
      · exact halone m q hm hq
      · exact absurd (hq ▸ hmade) hfresh
  · refine ⟨hmade, fun hused => ?_, fun m q hm hq => ?_⟩
    · rw [List.append_nil] at hused
      exact hfresh (counted.used _ hused)
    · by_contra hne
      exact hfresh (hq ▸ (counted.setups m q (hothers m q hm hne)).1)

theorem Counted.next_rows (h : s'.db.owners.lookup id = some row)
    (hcredential : row.credential = some credential) :
    Used (es ++ shown) credential.passwordHash ∧ ∀ e ∈ es ++ shown, ∀ credential' counter,
      e.accepts = some (id, credential', counter) →
      credential'.passwordHash = credential.passwordHash → counter ≤ row.totpLastCounter := by
  have source := next.owner h
  generalize hold : s.db.owners.lookup id = old at source
  cases source with
  | kept still =>
    obtain ⟨hused, hbound⟩ := counted.rows id row credential hold hcredential
    refine ⟨hused.append, fun e he credential' counter haccepts hhash => ?_⟩
    rcases List.mem_append.mp he with he | he
    · exact hbound e he credential' counter haccepts hhash
    · exact absurd (Event.accepts_owner haccepts) (still e he)
  | bare hbare =>
    rw [hbare] at hcredential
    cases hcredential
  | @completed _ _ n token made eq hmade =>
    obtain rfl : made = credential := Option.some.inj (hmade.symm.trans hcredential)
    have hnew : Event.completed n token id made row.totpLastCounter ∈ shown := by simp [eq]
    refine ⟨⟨_, List.mem_append_right _ hnew, id, made, _, rfl, rfl⟩,
      fun e he credential' counter haccepts hhash => ?_⟩
    rcases List.mem_append.mp he with he | he
    · -- no code was accepted for the hash before it was installed
      obtain ⟨-, ⟨m, _, p, heq, hcall, hp, -⟩ | ⟨m, _, _, _, heq, -⟩⟩ := next.accepts hnew rfl
      · refine absurd ⟨e, he, id, credential', counter, haccepts, ?_⟩ (counted.setups m p hcall).2.1
        rw [hhash, ← hp]
        rfl
      · cases heq
    · rw [eq, List.mem_singleton] at he
      rw [he] at haccepts
      cases haccepts
      exact le_refl _
  | accepted eq later same =>
    obtain ⟨hused, hbound⟩ := counted.rows id _ credential hold (same ▸ hcredential)
    refine ⟨hused.append, fun e he credential' counter haccepts hhash => ?_⟩
    rcases List.mem_append.mp he with he | he
    · have := hbound e he credential' counter haccepts hhash
      omega
    · rw [eq, List.mem_singleton] at he
      rw [he] at haccepts
      cases haccepts
      exact le_refl _

/-- An owner that has a hash that was in use before had it before, and was not replaced. -/
theorem Counted.holds_before {read : Credentials} (hused : Used es read.credential.passwordHash)
    (holds : s'.db.Holds read) : s.db.Holds read ∧ ∀ e ∈ shown, ¬e.Replaces read.id := by
  obtain ⟨row, hrow, hstanding, hhash⟩ := holds
  have source := next.owner hrow
  generalize hold : s.db.owners.lookup read.id = old at source
  cases source with
  | kept still =>
    exact ⟨⟨row, hold, hstanding, hhash⟩, fun e he hreplaces => still e he hreplaces.owner⟩
  | bare hbare =>
    rw [hbare] at hhash
    cases hhash
  | @completed _ _ n token made eq hmade =>
    -- the new hash was not in use
    rw [hmade] at hhash
    have hnew : Event.completed n token read.id made row.totpLastCounter ∈ shown := by simp [eq]
    obtain ⟨-, ⟨m, _, p, heq, hcall, rfl, -⟩ | ⟨m, _, _, _, heq, -⟩⟩ := next.accepts hnew rfl
    · refine absurd ?_ (counted.setups m p hcall).2.1
      rw [show p.passwordHash = read.credential.passwordHash from Option.some.inj hhash]
      exact hused
    · cases heq
  | accepted eq later same hash standing =>
    refine ⟨⟨_, hold, standing, same ▸ hhash⟩, ?_⟩
    simp [eq, Event.Replaces]

theorem Counted.next_reads {call : Pending} {read : Credentials} (h : s'.calls.lookup n = some call)
    (hread : call.read = some read) :
    Used (es ++ shown) read.credential.passwordHash ∧ (s'.db.Holds read →
      ClearSince (.began n read.id) (fun e => ¬e.Replaces read.id) (es ++ shown)) := by
  rcases next.read h hread with hcall | ⟨rfl, -, row, hrow, -, hcredential⟩
  · obtain ⟨hused, hclear⟩ := counted.reads n call read hcall hread
    refine ⟨hused.append, fun holds => ?_⟩
    obtain ⟨hbefore, hspared⟩ := counted.holds_before next hused holds
    exact (hclear hbefore).later hspared
  · exact ⟨(counted.rows read.id row _ hrow hcredential).1.append, fun _ => .now []⟩

end

theorem Counted.next (counted : Counted es s) (next : Next svc s shown s') :
    Counted (es ++ shown) s' where
  order := counted.next_order next
  used _ h := counted.next_used next h
  setups _ _ h := counted.next_setups next h
  rows _ _ _ h hc := counted.next_rows next h hc
  reads _ _ _ h hr := counted.next_reads next h hr

theorem Run.counted (run : Run svc es s) : Counted es s :=
  run.always .init fun _ _ _ _ _ counted next _ => counted.next next

/-- **Each code is consumed once, and no stale call commits.** In every run the counters that
    are accepted for one owner and one password hash strictly increase, and a `Login` or
    `StepUp` that commits has read the credentials with no reset, removal or new password
    of that owner since. -/
theorem codes_consumed_once (run : Run svc es s) :
    (es.Pairwise fun e e' => ∀ owner credential credential' counter counter',
      e.accepts = some (owner, credential, counter) →
      e'.accepts = some (owner, credential', counter') →
      credential.passwordHash = credential'.passwordHash → counter < counter') ∧
    ∀ shown s' n owner credential counter, Next svc s shown s' →
      .accepted n owner credential counter ∈ shown →
      ClearSince (.began n owner) (fun e => ¬e.Replaces owner) es := by
  have counted := run.counted
  refine ⟨counted.order, fun shown s' n owner credential counter next hmem => ?_⟩
  obtain ⟨-, ⟨_, _, _, heq, -⟩ | ⟨m, call, read, row, heq, hcall, hread, rfl, rfl, hrow, -, hstanding,
    hhash⟩⟩ := next.accepts hmem rfl
  · cases heq
  · cases heq
    exact (counted.reads _ call read hcall hread).2 ⟨row, hrow, hstanding, hhash⟩

namespace Demo

def logIn (n : Nat) : Turn := .readLogin (moment n) ⟨ada, password, code n, []⟩

/-- Two logins read one code, one after the other; the first commits. -/
def twoLogins : List Event × System :=
  playAll server (opening ++ [logIn 6, logIn 6, .commitLogin (moment 7) 1]) ([], .init)

def codeOfSix : Event := .accepted 1 adaID ⟨3 :: password, [2]⟩ 100006

/-- The code of step 6 is accepted once, after that of the setup; the other login is refused. -/
theorem second_login_refused : twoLogins.1.getLast? = some codeOfSix ∧
    twoLogins.1.Pairwise (fun e e' => ∀ owner credential credential' counter counter',
      e.accepts = some (owner, credential, counter) →
      e'.accepts = some (owner, credential', counter') →
      credential.passwordHash = credential'.passwordHash → counter < counter') ∧
    (twoLogins.2.calls.lookup 2).isSome = true ∧
    ((Turn.commitLogin (moment 8) 2).play server twoLogins.2).isSome = false :=
  ⟨by decide +kernel, (codes_consumed_once (playAll_init _)).1, by decide +kernel, by decide +kernel⟩

end Demo

end Sesame.Selfhost
