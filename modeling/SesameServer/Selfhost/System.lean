import SesameServer.Lib.History
import SesameServer.Selfhost.Specs

/- The self-hosted store as a system: any number of calls, whose transactions come one after
   the other (the store has one connection that writes) and whose reads come in between.

   1. `Event` — what a committed step did.
   2. `Op` — the calls that are one transaction. `CompleteSetup`, `Login` and `StepUp` are not:
      a call that has read is a `Pending` one, with what it takes into its transaction.
   3. `Next` — one step; the clock may show any time. What `crypto/rand` gives is new: no id
      is drawn twice, and no password hash, which has a random salt, comes up twice.
   4. `Effect` — the tables after a step, all steps of one kind of write together. Every
      invariant is derived from it.
   5. `Turn.play` — the same steps, executable: what it plays is a run (`playAll_init`). -/
namespace Sesame.Selfhost
open Outcome

inductive Event where
  | issued (token : Bytes) (purpose : Purpose)
  | detailed (token secret : Bytes)
  | reset (owner : Bytes)
  | removed (owner : Bytes)
  /-- `Login` or `StepUp` has read the owner's credentials. -/
  | began (call : Nat) (owner : Bytes)
  | completed (call : Nat) (token owner : Bytes) (credential : Credential) (counter : Int)
  /-- `Login` or `StepUp` committed. -/
  | accepted (call : Nat) (owner : Bytes) (credential : Credential) (counter : Int)
  | paired (pairing : Bytes) (holder : Holder)
  | connected (device : Bytes) (holder : Holder)
  deriving DecidableEq

inductive Op where
  | startFirstSetup
  | inviteOwner (by_ : Actor) (name : Bytes)
  | resetOwner (by_ : Actor) (name : Bytes)
  | removeOwner (by_ : Actor) (id : Bytes)
  | setupDetails (token : Bytes)
  | logout (token : Bytes)
  | createMember (by_ : Actor) (name : Bytes)
  | renameMember (by_ : Actor) (id name : Bytes)
  | deleteMember (by_ : Actor) (id : Bytes)
  | revokeMemberDevices (by_ : Actor) (id : Bytes)
  | createPairing (by_ : Actor) (input : PairingInput)
  | cancelPairing (by_ : Actor) (id : Bytes)
  | redeemPairing (input : RedeemInput)
  | revokeDevice (by_ : Actor) (id : Bytes)
  | heartbeat (token : Bytes) (m : DeviceMeta)
  | disconnect (token : Bytes)
  | rateLimit (key : Bytes) (limit window : Int)
  | resetRateLimit (key : Bytes)
  | maintain

variable (svc : Service)

/-- The transaction, and what it did if it commits. -/
def Op.run (env : Env) : Op → Tx (List Event)
  | .startFirstSetup => do
    let _ ← Selfhost.startFirstSetup svc env
    pure [.issued (env.id 0) .first]
  | .inviteOwner by_ name => do
    let _ ← Selfhost.inviteOwner svc env by_ name
    pure [.issued (env.id 1) (.invite (env.id 0))]
  | .resetOwner by_ name => do
    let reply ← Selfhost.resetOwner svc env by_ name
    pure [.reset reply.1, .issued (env.id 0) (.reset reply.1)]
  | .removeOwner by_ id => do
    Selfhost.removeOwner svc env by_ id
    pure [.removed id]
  | .setupDetails token => do
    let reply ← Selfhost.setupDetails svc env token
    pure [.detailed reply.1 reply.2.totpSecret]
  | .logout token => do
    Selfhost.logout svc token
    pure []
  | .createMember by_ name => do
    let _ ← Selfhost.createMember svc env by_ name
    pure []
  | .renameMember by_ id name => do
    Selfhost.renameMember svc env by_ id name
    pure []
  | .deleteMember by_ id => do
    let _ ← Selfhost.deleteMember svc env by_ id
    pure []
  | .revokeMemberDevices by_ id => do
    let _ ← Selfhost.revokeMemberDevices svc env by_ id
    pure []
  | .createPairing by_ input => do
    let _ ← Selfhost.createPairing svc env by_ input
    pure [.paired (env.id 0) input.holder]
  | .cancelPairing by_ id => do
    Selfhost.cancelPairing svc env by_ id
    pure []
  | .redeemPairing input => do
    let issued ← Selfhost.redeemPairing svc env input
    pure [.connected (env.id 0) issued.device.holder]
  | .revokeDevice by_ id => do
    Selfhost.revokeDevice svc env by_ id
    pure []
  | .heartbeat token m => do
    let _ ← Selfhost.heartbeat svc env token m
    pure []
  | .disconnect token => do
    Selfhost.disconnect svc env token
    pure []
  | .rateLimit key limit window => do
    let _ ← Selfhost.rateLimit env key limit window
    pure []
  | .resetRateLimit key => do
    Selfhost.resetRateLimit key
    pure []
  | .maintain => do
    let _ ← Selfhost.maintain env
    pure []

/-- A call that has read and not yet written. -/
inductive Pending where
  /-- `CompleteSetup` has found its token, and not yet looked for other owners. -/
  | token (input : CompleteSetupInput) (found : FoundToken)
  | setup (prepared : PreparedSetup)
  /-- `StepUp` has found its session, and not yet read the credentials. -/
  | session (input : StepUpInput) (current : OwnerSession)
  | login (prepared : PreparedLogin)
  | stepUp (prepared : PreparedStepUp)

structure System where
  db : Db
  calls : Table Nat Pending
  next : Nat
  /-- The ids that were drawn; the empty text is none. -/
  ids : List Bytes
  hashes : List Bytes

def System.init : System := ⟨.empty, ∅, 0, [[]], []⟩

/-- The ids that a transaction draws are new. -/
structure System.Draws (s : System) (env : Env) : Prop where
  first : env.id 0 ∉ s.ids
  second : env.id 1 ∉ s.ids
  ne : env.id 0 ≠ env.id 1

def System.write (s : System) (env : Env) (db : Db) : System :=
  { s with db := db, ids := s.ids ++ [env.id 0, env.id 1] }

/-- A new call that has read. -/
def System.begin (s : System) (call : Pending) : System :=
  { s with calls := s.calls.insert s.next call, next := s.next + 1 }

/-- A call that has read again. -/
def System.goOn (s : System) (n : Nat) (call : Pending) : System :=
  { s with calls := s.calls.insert n call }

def System.finish (s : System) (n : Nat) : System := { s with calls := s.calls.erase n }

inductive Next : System → List Event → System → Prop
  | op {s : System} {env : Env} {op : Op} {events : List Event} {db : Db} (draws : s.Draws env)
      (run : op.run svc env s.db = .ok events db) : Next s events (s.write env db)
  | readToken {s : System} {env : Env} {input : CompleteSetupInput} {found : FoundToken}
      (valid : checkSetupInput input = .ok ())
      (run : findToken svc (env.clock 0) input.token s.db = .ok found) :
      Next s [] (s.begin (.token input found))
  | prepareSetup {s : System} {env : Env} {n : Nat} {input : CompleteSetupInput}
      {found : FoundToken} {p : PreparedSetup} (call : s.calls.lookup n = some (.token input found))
      (first : checkFirst found.purpose s.db = .ok ())
      (run : prepareSetup svc env input found = .ok p) (fresh : p.passwordHash ∉ s.hashes) :
      Next s [] { s.goOn n (.setup p) with hashes := s.hashes ++ [p.passwordHash] }
  | commitSetup {s : System} {env : Env} {n : Nat} {p : PreparedSetup} {reply : Bytes × OwnerLogin}
      {db : Db} (call : s.calls.lookup n = some (.setup p)) (draws : s.Draws env)
      (run : commitSetup svc env p s.db = .ok reply db) :
      Next s [.completed n p.found.id reply.1 p.credential p.counter] ((s.write env db).finish n)
  | readLogin {s : System} {env : Env} {input : LoginInput} {p : PreparedLogin}
      (run : prepareLogin svc env input s.db = .ok p) :
      Next s [.began s.next p.found.id] (s.begin (.login p))
  | commitLogin {s : System} {env : Env} {n : Nat} {p : PreparedLogin} {reply : OwnerLogin} {db : Db}
      (call : s.calls.lookup n = some (.login p)) (draws : s.Draws env)
      (run : commitLogin svc env p s.db = .ok reply db) :
      Next s [.accepted n p.found.id p.found.credential p.counter] ((s.write env db).finish n)
  | readSession {s : System} {env : Env} {input : StepUpInput} {current : OwnerSession}
      (valid : checkStepUpInput input = .ok ())
      (run : session svc (env.clock 0) input.sessionToken s.db = .ok current) :
      Next s [] (s.begin (.session input current))
  | readStepUp {s : System} {env : Env} {n : Nat} {input : StepUpInput} {current : OwnerSession}
      {p : PreparedStepUp} (call : s.calls.lookup n = some (.session input current))
      (run : prepareStepUp svc env input current s.db = .ok p) :
      Next s [.began n p.found.id] (s.goOn n (.stepUp p))
  | commitStepUp {s : System} {env : Env} {n : Nat} {p : PreparedStepUp} {u : Unit} {db : Db}
      (call : s.calls.lookup n = some (.stepUp p)) (draws : s.Draws env)
      (run : commitStepUp svc env p s.db = .ok u db) :
      Next s [.accepted n p.found.id p.found.credential p.counter] ((s.write env db).finish n)
  /-- A call that fails, or whose client is gone. -/
  | giveUp {s : System} (n : Nat) : Next s [] (s.finish n)

/-- A run from the empty store. -/
def Run (events : List Event) (s : System) : Prop :=
  History.Path (Next svc) (fun _ => True) .init events s

/-! What a step leaves. -/

/-- The same devices with the same holders; some are revoked now, and none is no longer. -/
def Dimmed (devices devices' : Table Bytes DeviceRow) : Prop :=
  ∀ k, Option.Rel (fun d d' : DeviceRow => d'.holder = d.holder ∧ (d'.live = true → d.live = true))
    (devices.lookup k) (devices'.lookup k)

/-- The same pairings, some of them cancelled now. -/
def Cancelled (pairings pairings' : Table Bytes PairingRow) : Prop :=
  ∀ k, pairings'.lookup k = pairings.lookup k ∨ ∃ p now, pairings.lookup k = some p ∧
    pairings'.lookup k = some { p with cancelledAt := some now }

variable (env : Env) (db : Db)

inductive Effect : List Event → Db → Prop
  | first {log : AuditLog} : Effect [.issued (env.id 0) .first] { db with
      setupTokens := (db.setupTokens.deleteWhere fun _ t =>
          t.purpose == Purpose.first && t.usedAt.isNone).insert (env.id 0)
        (newToken svc (env.clock 0) (env.token 0) .first SystemActor)
      audit := log }
  | invited {by_ : Actor} {normalized : Bytes} {log : AuditLog}
      (fresh : db.owners.lookup (env.id 0) = none) :
      Effect [.issued (env.id 1) (.invite (env.id 0))] { db with
        owners := db.owners.insert (env.id 0)
          ⟨normalized, svc.nameKey normalized, none, 0, env.clock 0, none, none⟩
        setupTokens := db.setupTokens.insert (env.id 1)
          (newToken svc (env.clock 1) (env.token 0) (.invite (env.id 0)) by_)
        audit := log }
  | reset {by_ : Actor} {id : Bytes} {row : Owner} {log : AuditLog}
      (lookup : db.owners.lookup id = some row) (standing : row.removedAt = none) :
      Effect [.reset id, .issued (env.id 0) (.reset id)] { dropAccess db id with
        owners := db.owners.updateWhere (fun k _ => k == id) fun o => { o with credential := none }
        setupTokens := (dropAccess db id).setupTokens.insert (env.id 0)
          (newToken svc (env.clock 1) (env.token 0) (.reset id) by_)
        devices := revokedOf (env.clock 0) (.owner id) db.devices
        pairings := cancelledOf (env.clock 0) (.owner id) db.pairings
        audit := log }
  | removed {id : Bytes} {row : Owner} {log : AuditLog} (lookup : db.owners.lookup id = some row) :
      Effect [.removed id] { dropAccess db id with
        owners := db.owners.updateWhere (fun k _ => k == id) fun o =>
          { o with removedAt := some (env.clock 0), credential := none }
        devices := revokedOf (env.clock 0) (.owner id) db.devices
        pairings := cancelledOf (env.clock 0) (.owner id) db.pairings
        audit := log }
  /-- `SetupDetails` of a token that had its secret. -/
  | shown {id secret : Bytes} {t : SetupToken} {sealedSecret : Bytes}
      (lookup : db.setupTokens.lookup id = some t) (unused : t.usedAt = none)
      (had : t.totpSecret = some sealedSecret) (opens : svc.openSecret sealedSecret = some secret) :
      Effect [.detailed id secret] db
  /-- `SetupDetails` of a token that got it now. -/
  | detailed {id : Bytes} {t : SetupToken} (lookup : db.setupTokens.lookup id = some t)
      (unused : t.usedAt = none) (had : t.totpSecret = none) :
      Effect [.detailed id env.secret] { db with
        setupTokens := db.setupTokens.updateWhere (fun k _ => k == id) fun t =>
          { t with totpSecret := some (svc.sealSecret env.secret env.nonce) } }
  | completed {n : Nat} {p : PreparedSetup} {owner : Bytes} {t : SetupToken}
      {owners : Table Bytes Owner} {session : SessionRow} {choice : Option Bool}
      {log : AuditLog} (lookup : db.setupTokens.lookup p.found.id = some t)
      (unused : t.usedAt = none) (installed : Installed env p db owners owner)
      (own : session.ownerID = owner) :
      Effect [.completed n p.found.id owner p.credential p.counter] { db with
        owners := owners
        setupTokens := db.setupTokens.insert p.found.id { t with usedAt := some (env.clock 0) }
        sessions := db.sessions.insert (env.id 1) session
        updateChecks := choice
        audit := log }
  | accepted {n : Nat} {found : Credentials} {counter : Int} {row : Owner} {loginAt : Option Int}
      {sessions : Table Bytes SessionRow} {log : AuditLog}
      (lookup : db.owners.lookup found.id = some row) (later : row.totpLastCounter < counter)
      (hash : row.credential.map (·.passwordHash) = some found.credential.passwordHash)
      (standing : row.removedAt = none)
      (own : ∀ k s, sessions.lookup k = some s → s.ownerID = found.id ∨
        ∃ s', db.sessions.lookup k = some s' ∧ s.ownerID = s'.ownerID) :
      Effect [.accepted n found.id found.credential counter] { db with
        owners := db.owners.insert found.id
          { row with totpLastCounter := counter, lastLoginAt := loginAt }
        sessions := sessions
        audit := log }
  /-- Devices are heard from or revoked, pairings cancelled, sessions ended or attempts counted. -/
  | quiet {devices : Table Bytes DeviceRow} {pairings : Table Bytes PairingRow}
      {sessions : Table Bytes SessionRow} {rates : Table Bytes RateRow} {log : AuditLog}
      (dimmed : Dimmed db.devices devices) (cancelled : Cancelled db.pairings pairings)
      (ended : ∀ k s, sessions.lookup k = some s → db.sessions.lookup k = some s) :
      Effect [] { db with
        devices := devices, pairings := pairings, sessions := sessions, rateLimits := rates,
        audit := log }
  | memberAdded {member : Member} {log : AuditLog} (standing : member.removedAt = none)
      (fresh : db.members.lookup (env.id 0) = none) :
      Effect [] { db with members := db.members.insert (env.id 0) member, audit := log }
  | memberRenamed {id name nameKey : Bytes} {row : Member} {log : AuditLog}
      (lookup : db.members.lookup id = some row) (standing : row.removedAt = none) :
      Effect [] { db with
        members := db.members.insert id { row with name := name, nameKey := nameKey }, audit := log }
  | memberRemoved {id : Bytes} {row : Member} {log : AuditLog}
      (lookup : db.members.lookup id = some row) :
      Effect [] { db with
        members := db.members.insert id { row with removedAt := some (env.clock 0) }
        devices := revokedOf (env.clock 0) (.member id) db.devices
        pairings := cancelledOf (env.clock 0) (.member id) db.pairings
        audit := log }
  | paired {holder : Holder} {name : Bytes} {row : PairingRow} {log : AuditLog}
      (resolved : db.resolveHolder holder = some name) (own : row.holder = holder)
      (unused : row.usedAt = none) (noDevice : row.deviceID = none)
      (fresh : db.pairings.lookup (env.id 0) = none) :
      Effect [.paired (env.id 0) holder] { db with
        pairings := (cancelledOf (env.clock 0) holder db.pairings).insert (env.id 0) row
        audit := log }
  | connected {id : Bytes} {pairing : PairingRow} {row : DeviceRow}
      {pairings : Table Bytes PairingRow} {log : AuditLog}
      (lookup : db.pairings.lookup id = some pairing) (live : pairing.live = true)
      (own : row.holder = pairing.holder) (fresh : db.devices.lookup (env.id 0) = none)
      (redeemed : ∀ k, pairings.lookup k = (db.pairings.lookup k).map fun p =>
        if k == id then p.redeem (env.clock 0) (env.id 0) else p) :
      Effect [.connected (env.id 0) pairing.holder] { db with
        devices := db.devices.insert (env.id 0) row, pairings := pairings, audit := log }
  | maintained : Effect [] ((db.swept (env.clock 0)).pruned (env.clock 0 - holderRetention))

variable {svc env db}

theorem Dimmed.refl (devices : Table Bytes DeviceRow) : Dimmed devices devices := by
  intro k
  cases devices.lookup k with
  | none => exact .none
  | some d => exact .some ⟨rfl, id⟩

theorem Cancelled.refl (pairings : Table Bytes PairingRow) : Cancelled pairings pairings :=
  fun _ => .inl rfl

variable {k : Bytes} {s s' : System}

theorem Dimmed.before {devices devices' : Table Bytes DeviceRow} {d' : DeviceRow}
    (dimmed : Dimmed devices devices') (h : devices'.lookup k = some d') :
    ∃ d, devices.lookup k = some d ∧ d'.holder = d.holder ∧ (d'.live = true → d.live = true) := by
  have hrel := dimmed k
  rw [h] at hrel
  generalize devices.lookup k = before at hrel
  cases hrel with
  | some hrel => exact ⟨_, rfl, hrel⟩

theorem Dimmed.updateWhere (devices : Table Bytes DeviceRow) (p : Bytes → DeviceRow → Bool)
    (now : Int) : Dimmed devices (devices.updateWhere p fun d => { d with revokedAt := some now }) := by
  intro k
  rw [Table.lookup_updateWhere]
  cases devices.lookup k with
  | none => exact .none
  | some d =>
    rw [Option.map_some]
    split
    · exact .some ⟨rfl, fun live => by cases live⟩
    · exact .some ⟨rfl, id⟩

theorem Cancelled.cancelledOf (now : Int) (holder : Holder) (pairings : Table Bytes PairingRow) :
    Cancelled pairings (cancelledOf now holder pairings) := by
  intro k
  rw [Selfhost.cancelledOf, Table.lookup_updateWhere]
  cases pairings.lookup k with
  | none => exact .inl rfl
  | some p =>
    by_cases hp : (p.holder == holder && p.live) = true
    · exact .inr ⟨p, now, rfl, by simp only [Option.map_some, hp, if_true]⟩
    · exact .inl (by simp only [Option.map_some, hp]; rfl)

theorem Dimmed.insert {devices : Table Bytes DeviceRow} {d d' : DeviceRow}
    (h : devices.lookup k = some d) (own : d'.holder = d.holder)
    (still : d'.live = true → d.live = true) : Dimmed devices (devices.insert k d') := by
  intro k'
  rw [Table.lookup_insert_eq]
  split
  · next hk =>
    rw [hk, h]
    exact .some ⟨own, still⟩
  · exact Dimmed.refl devices k'

theorem Cancelled.insert {pairings : Table Bytes PairingRow} {p : PairingRow} (now : Int)
    (h : pairings.lookup k = some p) :
    Cancelled pairings (pairings.insert k { p with cancelledAt := some now }) := by
  intro k'
  rw [Table.lookup_insert_eq]
  split
  · next hk => exact .inr ⟨p, now, hk ▸ h, rfl⟩
  · exact .inl rfl

/-! Each transaction has one of the effects. -/

variable {db' : Db} {by_ : Actor} {u : Unit} {id token name : Bytes} {issue : SetupIssue}

theorem startFirstSetup_effect (h : startFirstSetup svc env db = .ok issue db') :
    Effect svc env db [.issued (env.id 0) .first] db' := by
  simp only [startFirstSetup, bind_ok, get_ok, refuse_ok, set_ok, pure_ok] at h
  obtain ⟨_, _, ⟨rfl, rfl⟩, _, _, ⟨-, rfl⟩, _, _, rfl, _, _, hinsert, _, _, haudit, -, rfl⟩ := h
  obtain ⟨-, -, rfl⟩ := insertSetupToken_ok hinsert
  obtain ⟨log, rfl⟩ := audit_ok haudit
  exact .first

theorem inviteOwner_effect (h : inviteOwner svc env by_ name db = .ok issue db') :
    Effect svc env db [.issued (env.id 1) (.invite (env.id 0))] db' := by
  simp only [inviteOwner, bind_ok, get_ok, need_ok, set_ok, pure_ok] at h
  obtain ⟨normalized, _, ⟨-, rfl⟩, _, _, ⟨rfl, rfl⟩, owners, _, ⟨howners, rfl⟩, _, _, rfl, _, _, hinsert,
    _, _, haudit, -, rfl⟩ := h
  obtain ⟨hnone, -, rfl⟩ := Table.insertNew_some.mp howners
  obtain ⟨-, -, rfl⟩ := insertSetupToken_ok hinsert
  obtain ⟨log, rfl⟩ := audit_ok haudit
  exact .invited hnone

theorem resetOwner_effect {reply : Bytes × SetupIssue}
    (h : resetOwner svc env by_ name db = .ok reply db') :
    Effect svc env db [.reset reply.1, .issued (env.id 0) (.reset reply.1)] db' := by
  simp only [resetOwner, bind_ok, get_ok, need_ok, set_ok, pure_ok] at h
  obtain ⟨normalized, _, ⟨-, rfl⟩, _, _, ⟨rfl, rfl⟩, ⟨id, row⟩, _, ⟨hfound, rfl⟩, _, _, rfl, _, _,
    hrevoke, _, _, hcancel, _, _, hinsert, _, _, haudit, rfl, rfl⟩ := h
  obtain ⟨hrow, hname⟩ := Table.find?_some hfound
  obtain rfl := revokeDevicesWhere_ok hrevoke
  obtain rfl := cancelPairingsWhere_ok hcancel
  obtain ⟨-, -, rfl⟩ := insertSetupToken_ok hinsert
  obtain ⟨log, rfl⟩ := audit_ok haudit
  simp only [nameTaken, Bool.and_eq_true, Option.isNone_iff_eq_none] at hname
  exact .reset hrow hname.1

theorem removeOwner_effect (h : removeOwner svc env by_ id db = .ok u db') :
    Effect svc env db [.removed id] db' := by
  simp only [removeOwner, bind_ok, get_ok, need_ok, refuse_ok, set_ok] at h
  obtain ⟨_, _, ⟨rfl, rfl⟩, row, _, ⟨hrow, rfl⟩, _, _, ⟨-, rfl⟩, _, _, rfl, _, _, hrevoke, _, _, hcancel,
    haudit⟩ := h
  obtain rfl := revokeDevicesWhere_ok hrevoke
  obtain rfl := cancelPairingsWhere_ok hcancel
  obtain ⟨log, rfl⟩ := audit_ok haudit
  exact .removed (Option.filter_eq_some_iff.mp hrow).1

/-- The secret is the one that was there, or it is new and there now. -/
theorem setupDetails_effect {reply : Bytes × SetupDetails}
    (h : setupDetails svc env token db = .ok reply db') :
    Effect svc env db [.detailed reply.1 reply.2.totpSecret] db' := by
  simp only [setupDetails, bind_ok, refuse_ok, get_ok, lift_ok, pure_ok] at h
  obtain ⟨_, _, ⟨-, rfl⟩, _, _, ⟨rfl, rfl⟩, found, _, ⟨hfound, rfl⟩, secret, _, hsecret, rfl, rfl⟩ := h
  obtain ⟨t, hlookup, hused, -, htotp, -⟩ := findToken_ok (findSetupToken_ok hfound)
  unfold tokenSecret at hsecret
  cases hsealed : found.secret with
  | some sealedSecret =>
    rw [hsealed] at hsecret
    obtain ⟨hopen, rfl⟩ := need_ok.mp hsecret
    exact .shown hlookup hused (htotp.trans hsealed) hopen
  | none =>
    rw [hsealed] at hsecret
    simp only [bind_ok, modify_ok, pure_ok] at hsecret
    obtain ⟨_, _, rfl, rfl, rfl⟩ := hsecret
    exact .detailed hlookup hused (htotp.trans hsealed)

theorem logout_effect (h : logout svc token db = .ok u db') : Effect svc env db [] db' := by
  simp only [logout, onlyIf_ok, modify_ok] at h
  rcases h with ⟨-, rfl⟩ | ⟨-, rfl⟩
  · exact .quiet (.refl _) (.refl _) fun k s hs => (Table.lookup_deleteWhere_some.mp hs).1
  · exact .quiet (.refl _) (.refl _) fun _ _ h => h

theorem createMember_effect {info : MemberInfo}
    (h : createMember svc env by_ name db = .ok info db') : Effect svc env db [] db' := by
  simp only [createMember, bind_ok, get_ok, need_ok, set_ok, pure_ok] at h
  obtain ⟨normalized, _, ⟨-, rfl⟩, _, _, ⟨rfl, rfl⟩, members, _, ⟨hinsert, rfl⟩, _, _, rfl, _, _, haudit,
    -, rfl⟩ := h
  obtain ⟨hnone, -, rfl⟩ := Table.insertNew_some.mp hinsert
  obtain ⟨log, rfl⟩ := audit_ok haudit
  exact .memberAdded rfl hnone

theorem renameMember_effect (h : renameMember svc env by_ id name db = .ok u db') :
    Effect svc env db [] db' := by
  simp only [renameMember, bind_ok, get_ok, need_ok, refuse_ok, set_ok] at h
  obtain ⟨normalized, _, ⟨-, rfl⟩, _, _, ⟨rfl, rfl⟩, row, _, ⟨hrow, rfl⟩, _, _, ⟨-, rfl⟩, _, _, rfl,
    haudit⟩ := h
  obtain ⟨hrow, standing⟩ := Option.filter_eq_some_iff.mp hrow
  obtain ⟨log, rfl⟩ := audit_ok haudit
  exact .memberRenamed hrow (by simpa using standing)

theorem deleteMember_effect {n : Nat} (h : deleteMember svc env by_ id db = .ok n db') :
    Effect svc env db [] db' := by
  simp only [deleteMember, bind_ok, get_ok, need_ok, set_ok, pure_ok] at h
  obtain ⟨_, _, ⟨rfl, rfl⟩, members, _, ⟨hchange, rfl⟩, _, _, rfl, _, _, hrevoke, _, _, hcancel, _, _,
    haudit, -, rfl⟩ := h
  obtain ⟨row, hrow, -, rfl⟩ := Table.change_some.mp hchange
  obtain rfl := revokeDevicesWhere_ok hrevoke
  obtain rfl := cancelPairingsWhere_ok hcancel
  obtain ⟨log, rfl⟩ := audit_ok haudit
  exact .memberRemoved hrow

theorem revokeMemberDevices_effect {n : Nat} (h : revokeMemberDevices svc env by_ id db = .ok n db') :
    Effect svc env db [] db' := by
  simp only [revokeMemberDevices, bind_ok, get_ok, refuse_ok, pure_ok] at h
  obtain ⟨_, _, ⟨rfl, rfl⟩, _, _, ⟨-, rfl⟩, _, _, hrevoke, _, _, haudit, -, rfl⟩ := h
  obtain rfl := revokeDevicesWhere_ok hrevoke
  obtain ⟨log, rfl⟩ := audit_ok haudit
  exact .quiet (.updateWhere _ _ _) (.refl _) fun _ _ h => h

theorem createPairing_effect {input : PairingInput} {issued : IssuedPairing}
    (h : createPairing svc env by_ input db = .ok issued db') :
    Effect svc env db [.paired (env.id 0) input.holder] db' := by
  simp only [createPairing, bind_ok, get_ok, refuse_ok, need_ok, set_ok, pure_ok] at h
  obtain ⟨_, _, ⟨-, rfl⟩, hint, _, ⟨-, rfl⟩, _, _, ⟨rfl, rfl⟩, name, _, ⟨hname, rfl⟩, _, _, hcancel, _, _,
    ⟨rfl, rfl⟩, pairings, _, ⟨hinsert, rfl⟩, _, _, rfl, _, _, haudit, -, rfl⟩ := h
  obtain rfl := cancelPairingsWhere_ok hcancel
  obtain ⟨hnone, -, rfl⟩ := Table.insertNew_some.mp hinsert
  obtain ⟨log, rfl⟩ := audit_ok haudit
  refine .paired hname rfl rfl rfl ?_
  simpa [cancelledOf, Table.lookup_updateWhere] using hnone

theorem cancelPairing_effect (h : cancelPairing svc env by_ id db = .ok u db') :
    Effect svc env db [] db' := by
  simp only [cancelPairing, bind_ok, get_ok, need_ok, set_ok] at h
  obtain ⟨_, _, ⟨rfl, rfl⟩, pairings, _, ⟨hchange, rfl⟩, _, _, rfl, haudit⟩ := h
  obtain ⟨row, hrow, -, rfl⟩ := Table.change_some.mp hchange
  obtain ⟨log, rfl⟩ := audit_ok haudit
  exact .quiet (.refl _) (.insert _ hrow) fun _ _ h => h

theorem redeemPairing_effect {input : RedeemInput} {issued : IssuedDevice}
    (h : redeemPairing svc env input db = .ok issued db') :
    Effect svc env db [.connected (env.id 0) issued.device.holder] db' := by
  simp only [redeemPairing, bind_ok, get_ok, refuse_ok, need_ok, set_ok, modify_ok, pure_ok] at h
  obtain ⟨_, _, ⟨-, rfl⟩, name, _, ⟨-, rfl⟩, _, _, ⟨-, rfl⟩, _, _, ⟨rfl, rfl⟩, ⟨id, pairing⟩, _,
    ⟨hfound, rfl⟩, _, _, rfl, _, _, hdevice, _, _, rfl, _, _, ⟨rfl, rfl⟩, _, _, haudit, rfl, rfl⟩ := h
  obtain ⟨hlookup, hlive, -⟩ := redeemable_some hfound
  obtain ⟨-, hnone, rfl⟩ := insertDevice_ok hdevice
  obtain ⟨log, rfl⟩ := audit_ok haudit
  refine .connected hlookup hlive rfl hnone fun k => ?_
  rw [Table.lookup_updateWhere, Table.lookup_updateWhere, Option.map_map]
  congr 1
  funext p
  by_cases hk : (k == id) = true <;> simp [hk, PairingRow.redeem]

theorem revokeDevice_ok (h : revokeDevice svc env by_ id db = .ok u db') :
    db' = db ∨ ∃ d log, db.devices.lookup id = some d ∧ db' = { db with
      devices := db.devices.insert id (d.revoke (env.clock 0)), audit := log } := by
  simp only [revokeDevice, bind_ok, get_ok] at h
  obtain ⟨_, _, ⟨rfl, rfl⟩, h⟩ := h
  cases hchange : db.devices.change id (fun d => d.live) (DeviceRow.revoke (env.clock 0)) with
  | none =>
    rw [hchange] at h
    exact .inl (refuse_ok.mp h).2.symm
  | some devices =>
    rw [hchange] at h
    simp only [bind_ok, set_ok] at h
    obtain ⟨_, _, rfl, haudit⟩ := h
    obtain ⟨d, hd, -, rfl⟩ := Table.change_some.mp hchange
    obtain ⟨log, rfl⟩ := audit_ok haudit
    exact .inr ⟨d, log, hd, rfl⟩

theorem revokeDevice_effect (h : revokeDevice svc env by_ id db = .ok u db') :
    Effect svc env db [] db' := by
  rcases revokeDevice_ok h with rfl | ⟨d, log, hd, rfl⟩
  · exact .quiet (.refl _) (.refl _) fun _ _ h => h
  · exact .quiet (.insert hd rfl fun live => by cases live) (.refl _) fun _ _ h => h

theorem heartbeat_effect {m : DeviceMeta} {device : Device}
    (h : heartbeat svc env token m db = .ok device db') : Effect svc env db [] db' := by
  simp only [heartbeat, bind_ok, get_ok, refuse_ok, need_ok, set_ok, pure_ok] at h
  obtain ⟨_, _, ⟨-, rfl⟩, _, _, ⟨-, rfl⟩, _, _, ⟨rfl, rfl⟩, ⟨id, d⟩, _, ⟨hfound, rfl⟩, _, _, rfl, -, rfl⟩ := h
  exact .quiet (.insert (Table.find?_some hfound).1 rfl fun live => live) (.refl _) fun _ _ h => h

theorem disconnect_effect (h : disconnect svc env token db = .ok u db') : Effect svc env db [] db' := by
  simp only [disconnect, bind_ok, get_ok, refuse_ok, need_ok, set_ok] at h
  obtain ⟨_, _, ⟨-, rfl⟩, _, _, ⟨rfl, rfl⟩, ⟨id, d⟩, _, ⟨hfound, rfl⟩, _, _, rfl, haudit⟩ := h
  obtain ⟨log, rfl⟩ := audit_ok haudit
  exact .quiet (.insert (Table.find?_some hfound).1 rfl fun live => by cases live) (.refl _) fun _ _ h => h

theorem rateLimit_effect {key : Bytes} {limit window : Int} {decision : RateDecision}
    (h : rateLimit env key limit window db = .ok decision db') : Effect svc env db [] db' := by
  simp only [rateLimit, bind_ok, get_ok, refuse_ok, set_ok, pure_ok] at h
  obtain ⟨_, _, ⟨-, rfl⟩, _, _, ⟨rfl, rfl⟩, _, _, rfl, -, rfl⟩ := h
  exact .quiet (.refl _) (.refl _) fun _ _ h => h

theorem resetRateLimit_effect {key : Bytes} (h : resetRateLimit key db = .ok u db') :
    Effect svc env db [] db' := by
  obtain rfl := modify_ok.mp h
  exact .quiet (.refl _) (.refl _) fun _ _ h => h

/-- **A transaction has one of the effects.** -/
theorem Op.run_effect {op : Op} {events : List Event} (h : op.run svc env db = .ok events db') :
    Effect svc env db events db' := by
  cases op <;> simp only [Op.run, bind_ok, pure_ok] at h <;> obtain ⟨reply, _, hrun, rfl, rfl⟩ := h
  case startFirstSetup => exact startFirstSetup_effect hrun
  case inviteOwner => exact inviteOwner_effect hrun
  case resetOwner => exact resetOwner_effect hrun
  case removeOwner => exact removeOwner_effect hrun
  case setupDetails => exact setupDetails_effect hrun
  case logout => exact logout_effect hrun
  case createMember => exact createMember_effect hrun
  case renameMember => exact renameMember_effect hrun
  case deleteMember => exact deleteMember_effect hrun
  case revokeMemberDevices => exact revokeMemberDevices_effect hrun
  case createPairing => exact createPairing_effect hrun
  case cancelPairing => exact cancelPairing_effect hrun
  case redeemPairing => exact redeemPairing_effect hrun
  case revokeDevice => exact revokeDevice_effect hrun
  case heartbeat => exact heartbeat_effect hrun
  case disconnect => exact disconnect_effect hrun
  case rateLimit => exact rateLimit_effect hrun
  case resetRateLimit => exact resetRateLimit_effect hrun
  case maintain =>
    rw [maintain_ok hrun]
    exact .maintained

/-- **A step has left the tables alone, or it has one of the effects.** -/
theorem Next.effect {shown : List Event} (next : Next svc s shown s') :
    (s'.db = s.db ∧ s'.ids = s.ids ∧ ∀ e ∈ shown, ∃ n owner, e = .began n owner) ∨
      ∃ env, s.Draws env ∧ s'.ids = s.ids ++ [env.id 0, env.id 1] ∧
        Effect svc env s.db shown s'.db := by
  cases next with
  | op draws run => exact .inr ⟨_, draws, rfl, Op.run_effect run⟩
  | readToken | prepareSetup | readLogin | readSession | readStepUp | giveUp =>
    exact .inl ⟨rfl, rfl, by simp⟩
  | commitSetup call draws run =>
    obtain ⟨t, owners, session, choice, log, lookup, unused, installed, own, rfl⟩ := commitSetup_ok run
    exact .inr ⟨_, draws, rfl, .completed lookup unused installed own⟩
  | commitLogin call draws run =>
    obtain ⟨row, session, log, lookup, later, hash, standing, own, rfl⟩ := commitLogin_ok run
    refine .inr ⟨_, draws, rfl, .accepted lookup later hash standing fun k s hs => ?_⟩
    rcases Table.lookup_insert_some.mp hs with ⟨-, rfl⟩ | ⟨-, hs⟩
    · exact .inl own
    · exact .inr ⟨s, hs, rfl⟩
  | commitStepUp call draws run =>
    obtain ⟨row, session, log, lookup, later, hash, standing, hsession, rfl⟩ := commitStepUp_ok run
    refine .inr ⟨_, draws, rfl, .accepted lookup later hash standing fun k s hs => ?_⟩
    rcases Table.lookup_insert_some.mp hs with ⟨rfl, rfl⟩ | ⟨-, hs⟩
    · exact .inr ⟨session, hsession, rfl⟩
    · exact .inr ⟨s, hs, rfl⟩

/-! Playing a run. -/

inductive Turn where
  | op (env : Env) (op : Op)
  | readToken (env : Env) (input : CompleteSetupInput)
  | prepareSetup (env : Env) (n : Nat)
  | commitSetup (env : Env) (n : Nat)
  | readLogin (env : Env) (input : LoginInput)
  | commitLogin (env : Env) (n : Nat)
  | readSession (env : Env) (input : StepUpInput)
  | readStepUp (env : Env) (n : Nat)
  | commitStepUp (env : Env) (n : Nat)
  | giveUp (n : Nat)

instance (s : System) (env : Env) : Decidable (s.Draws env) :=
  decidable_of_iff (env.id 0 ∉ s.ids ∧ env.id 1 ∉ s.ids ∧ env.id 0 ≠ env.id 1)
    ⟨fun ⟨first, second, ne⟩ => ⟨first, second, ne⟩, fun h => ⟨h.first, h.second, h.ne⟩⟩

/-- The transaction, if its ids are new and it commits. -/
def System.commit {α : Type} (s : System) (env : Env) (x : Tx α) : Option (α × System) :=
  if s.Draws env then
    match x s.db with
    | .ok a db => some (a, s.write env db)
    | .error _ _ => none
  else none

theorem System.commit_some {α : Type} {x : Tx α} {a : α} (h : s.commit env x = some (a, s')) :
    s.Draws env ∧ ∃ db, x s.db = .ok a db ∧ s' = s.write env db := by
  unfold System.commit at h
  split at h
  · next draws =>
    split at h
    · next a' db hok =>
      cases h
      exact ⟨draws, db, hok, rfl⟩
    · cases h
  · cases h

/-- The transaction of a call that returns then. -/
theorem System.commit_finish {α : Type} {x : Tx α} {show_ : α × System → List Event}
    {shown : List Event}
    (h : (s.commit env x).map (fun r => (show_ r, r.2.finish n)) = some (shown, s')) :
    ∃ a db, s.Draws env ∧ x s.db = .ok a db ∧ shown = show_ (a, s.write env db) ∧
      s' = (s.write env db).finish n := by
  obtain ⟨⟨a, after⟩, hr, hshown⟩ := Option.map_eq_some_iff.mp h
  obtain ⟨draws, db, run, rfl⟩ := System.commit_some hr
  cases hshown
  exact ⟨a, db, draws, run, rfl, rfl⟩

def Turn.play (svc : Service) (s : System) : Turn → Option (List Event × System)
  | .op env what => s.commit env (what.run svc env)
  | .readToken env input =>
    match checkSetupInput input, findToken svc (env.clock 0) input.token s.db with
    | .ok _, .ok found => some ([], s.begin (.token input found))
    | _, _ => none
  | .prepareSetup env n =>
    match s.calls.lookup n with
    | some (.token input found) =>
      match checkFirst found.purpose s.db, Selfhost.prepareSetup svc env input found with
      | .ok _, .ok p => if p.passwordHash ∈ s.hashes then none
          else some ([], { s.goOn n (.setup p) with hashes := s.hashes ++ [p.passwordHash] })
      | _, _ => none
    | _ => none
  | .commitSetup env n =>
    match s.calls.lookup n with
    | some (.setup p) => (s.commit env (Selfhost.commitSetup svc env p)).map fun r =>
        ([.completed n p.found.id r.1.1 p.credential p.counter], r.2.finish n)
    | _ => none
  | .readLogin env input =>
    match prepareLogin svc env input s.db with
    | .ok p => some ([.began s.next p.found.id], s.begin (.login p))
    | .error _ => none
  | .commitLogin env n =>
    match s.calls.lookup n with
    | some (.login p) => (s.commit env (Selfhost.commitLogin svc env p)).map fun r =>
        ([.accepted n p.found.id p.found.credential p.counter], r.2.finish n)
    | _ => none
  | .readSession env input =>
    match checkStepUpInput input, session svc (env.clock 0) input.sessionToken s.db with
    | .ok _, .ok current => some ([], s.begin (.session input current))
    | _, _ => none
  | .readStepUp env n =>
    match s.calls.lookup n with
    | some (.session input current) =>
      match prepareStepUp svc env input current s.db with
      | .ok p => some ([.began n p.found.id], s.goOn n (.stepUp p))
      | .error _ => none
    | _ => none
  | .commitStepUp env n =>
    match s.calls.lookup n with
    | some (.stepUp p) => (s.commit env (Selfhost.commitStepUp svc env p)).map fun r =>
        ([.accepted n p.found.id p.found.credential p.counter], r.2.finish n)
    | _ => none
  | .giveUp n => some ([], s.finish n)

theorem Turn.play_next {turn : Turn} {shown : List Event} (h : turn.play svc s = some (shown, s')) :
    Next svc s shown s' := by
  cases turn with
  | op env what =>
    obtain ⟨draws, db, run, rfl⟩ := System.commit_some h
    exact .op draws run
  | readToken env input =>
    dsimp only [Turn.play] at h
    split at h
    · next u found valid run =>
      cases h
      exact .readToken valid run
    · cases h
  | prepareSetup env n =>
    dsimp only [Turn.play] at h
    split at h
    · next input found call =>
      split at h
      · next u p first run =>
        split at h
        · cases h
        · next fresh =>
          cases h
          exact .prepareSetup call first run fresh
      · cases h
    · cases h
  | commitSetup env n =>
    dsimp only [Turn.play] at h
    split at h
    · next p call =>
      obtain ⟨a, db, draws, run, rfl, rfl⟩ := System.commit_finish h
      exact .commitSetup call draws run
    · cases h
  | readLogin env input =>
    dsimp only [Turn.play] at h
    split at h
    · next p run =>
      cases h
      exact .readLogin run
    · cases h
  | commitLogin env n =>
    dsimp only [Turn.play] at h
    split at h
    · next p call =>
      obtain ⟨a, db, draws, run, rfl, rfl⟩ := System.commit_finish h
      exact .commitLogin call draws run
    · cases h
  | readSession env input =>
    dsimp only [Turn.play] at h
    split at h
    · next u current valid run =>
      cases h
      exact .readSession valid run
    · cases h
  | readStepUp env n =>
    dsimp only [Turn.play] at h
    split at h
    · next input current call =>
      split at h
      · next p run =>
        cases h
        exact .readStepUp call run
      · cases h
    · cases h
  | commitStepUp env n =>
    dsimp only [Turn.play] at h
    split at h
    · next p call =>
      obtain ⟨a, db, draws, run, rfl, rfl⟩ := System.commit_finish h
      exact .commitStepUp call draws run
    · cases h
  | giveUp n =>
    cases h
    exact .giveUp n

def playAll (svc : Service) : List Turn → List Event × System → List Event × System :=
  History.playAll fun turn s => turn.play svc s

theorem playAll_init (turns : List Turn) : Run svc (playAll svc turns ([], .init)).1
    (playAll svc turns ([], .init)).2 :=
  History.playAll_path (fun _ _ _ _ => Turn.play_next) (.refl trivial)

namespace Demo

/-- A server with plain stand-ins for its primitives. -/
def server : Service where
  sha256 message := [message.headD 0, message.getLastD 0, UInt8.ofNat message.length]
  toLower name := name
  hashPassword password salt := salt ++ password
  verifyPassword hash password := hash.drop 1 == password
  sealSecret secret _ := secret.reverse
  openSecret sealedSecret := some sealedSecret.reverse
  open_seal secret _ := by simp
  decodeSecret secret := some secret
  truncate _ counter := counter.toNat
  sessionTTL := 3600

/-- The `n`-th step; the clock goes on by thirty seconds with each. -/
def moment (n : Nat) : Env where
  clock _ := 3000000 + 30 * n
  id k := [UInt8.ofNat n, UInt8.ofNat k]
  token k := List.replicate 40 (UInt8.ofNat n) ++ [UInt8.ofNat k]
  secret := [UInt8.ofNat n]
  nonce := []
  salt := [UInt8.ofNat n]

def code (n : Nat) : Bytes := Encoding.decimal (100000 + n)

def ada : Bytes := utf8 "ada"
def password : Bytes := utf8 "correct horse"

/-- The first owner, whose setup ended in step 4. -/
def adaID : Bytes := [4, 0]

/-- `CompleteSetup`, as the given call, with a token that step `n` issued. -/
def setUp (n call : Nat) : List Turn :=
  [.op (moment (n + 1)) (.setupDetails ((moment n).token 0)),
    .readToken (moment (n + 2)) ⟨(moment n).token 0, ada, password, code (n + 2), [], none⟩,
    .prepareSetup (moment (n + 2)) call, .commitSetup (moment (n + 3)) call]

def opening : List Turn := .op (moment 1) .startFirstSetup :: setUp 1 0

/-- A pairing is made for the owner in step `n`, and redeemed in the next. -/
def connect (n : Nat) : List Turn :=
  [.op (moment n) (.createPairing SystemActor ⟨.owner adaID, []⟩),
    .op (moment (n + 1)) (.redeemPairing ⟨(moment n).token 0, utf8 "laptop",
      ⟨[], [], [], [], 1, false, false⟩⟩)]

end Demo

end Sesame.Selfhost
