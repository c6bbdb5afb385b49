import SesameServer.Selfhost.Holders

/- What each transaction of the self-hosted store leaves when it commits: one lemma for each,
   which gives the tables afterwards and what was found on the way. -/
namespace Sesame.Selfhost
open Outcome

variable {svc : Service} {env : Env} {db db' : Db}

/-! Parts. -/

variable {now : Int} {by_ : Actor} {u : Unit} {id token name : Bytes} {issue : SetupIssue}
  {p : PreparedSetup}

theorem audit_ok {action : String} {target : Bytes} {detail : List (Bytes × Bytes)}
    (h : audit svc now by_ action target detail db = .ok u db') :
    ∃ log, db' = { db with audit := log } := by
  simp only [audit, bind_ok, get_ok, need_ok, set_ok] at h
  obtain ⟨_, _, ⟨rfl, rfl⟩, appended, _, ⟨-, rfl⟩, rfl⟩ := h
  exact ⟨_, rfl⟩

/-- A device once all of a holder's are revoked. -/
def revokedOf (now : Int) (holder : Holder) (devices : Table Bytes DeviceRow) :
    Table Bytes DeviceRow :=
  devices.updateWhere (fun _ d => d.holder == holder && d.live) fun d =>
    { d with revokedAt := some now }

/-- A pairing once all of a holder's are cancelled. -/
def cancelledOf (now : Int) (holder : Holder) (pairings : Table Bytes PairingRow) :
    Table Bytes PairingRow :=
  pairings.updateWhere (fun _ p => p.holder == holder && p.live) fun p =>
    { p with cancelledAt := some now }

theorem revokeDevicesWhere_ok {holder : Holder} {n : Nat}
    (h : revokeDevicesWhere now holder db = .ok n db') :
    db' = { db with devices := revokedOf now holder db.devices } := by
  simp only [revokeDevicesWhere, bind_ok, get_ok, set_ok, pure_ok] at h
  obtain ⟨_, _, ⟨rfl, rfl⟩, _, _, rfl, -, rfl⟩ := h
  rfl

theorem cancelPairingsWhere_ok {holder : Holder} (h : cancelPairingsWhere now holder db = .ok u db') :
    db' = { db with pairings := cancelledOf now holder db.pairings } := by
  simp only [cancelPairingsWhere, modify_ok] at h
  exact h.symm

theorem readOwner_ok {info : OwnerInfo} (h : readOwner id db = .ok info db') : db = db' := by
  simp only [readOwner, bind_ok, get_ok, need_ok, pure_ok] at h
  obtain ⟨_, _, ⟨rfl, rfl⟩, _, _, ⟨-, rfl⟩, -, rfl⟩ := h
  rfl

theorem readIssued_ok {purpose : Purpose} {info : Option OwnerInfo}
    (h : readIssued purpose db = .ok info db') : db = db' := by
  unfold readIssued at h
  cases howner : purpose.owner with
  | none =>
    rw [howner] at h
    exact (pure_ok.mp h).2
  | some owner =>
    rw [howner] at h
    simp only [bind_ok, pure_ok] at h
    obtain ⟨_, _, hread, -, rfl⟩ := h
    exact readOwner_ok hread

/-- The row that `insertSetupToken` writes. -/
def newToken (svc : Service) (now : Int) (token : Bytes) (purpose : Purpose) (by_ : Actor) :
    SetupToken :=
  ⟨svc.hashToken token, purpose, none, by_.string, now, now + setupTokenTTL, none⟩

theorem insertSetupToken_ok {purpose : Purpose}
    (h : insertSetupToken svc now id token purpose by_ db = .ok issue db') :
    (∀ owner, purpose.owner = some owner → (db.owners.lookup owner).isSome = true) ∧
      db.setupTokens.lookup id = none ∧
      db' = { db with
        setupTokens := db.setupTokens.insert id (newToken svc now token purpose by_) } := by
  simp only [insertSetupToken, bind_ok, get_ok, refuse_ok, need_ok, set_ok, pure_ok] at h
  obtain ⟨_, _, ⟨rfl, rfl⟩, _, _, ⟨howner, rfl⟩, tokens, _, ⟨hinsert, rfl⟩, _, _, rfl, _, _, hread,
    -, rfl⟩ := h
  obtain ⟨hnone, -, rfl⟩ := Table.insertNew_some.mp hinsert
  refine ⟨fun owner ho => ?_, hnone, (readIssued_ok hread).symm⟩
  rw [ho] at howner
  simpa [Option.isSome_iff_ne_none] using howner

/-- The row that `createSession` writes. -/
def newSession (svc : Service) (now : Int) (token ownerID userAgent : Bytes) : SessionRow :=
  ⟨svc.hashToken token, ownerID, cleanAgent userAgent, now, now + svc.sessionTTL, now⟩

theorem createSession_ok {ownerID userAgent : Bytes} {login : OwnerLogin}
    (h : createSession svc now id token ownerID userAgent db = .ok login db') :
    (db.owners.lookup ownerID).isSome = true ∧ db' = { db with
      sessions := db.sessions.insert id (newSession svc now token ownerID userAgent) } := by
  simp only [createSession, bind_ok, get_ok, refuse_ok, need_ok, set_ok, pure_ok] at h
  obtain ⟨_, _, ⟨rfl, rfl⟩, _, _, ⟨howner, rfl⟩, sessions, _, ⟨hinsert, rfl⟩, _, _, rfl, _, _, hread,
    -, rfl⟩ := h
  obtain ⟨-, -, rfl⟩ := Table.insertNew_some.mp hinsert
  exact ⟨by simpa [Option.isSome_iff_ne_none] using howner, (readOwner_ok hread).symm⟩

/-! Owners. -/

theorem findToken_ok {found : FoundToken} (h : findToken svc now token db = .ok found) :
    ∃ t, db.setupTokens.lookup found.id = some t ∧ t.usedAt = none ∧ t.purpose = found.purpose ∧
      t.totpSecret = found.secret ∧ ownerPending db t.purpose = true := by
  unfold findToken at h
  split at h
  · cases h
  · next id t hfind =>
    cases h
    obtain ⟨hlookup, hcond⟩ := Table.find?_some hfind
    simp only [Bool.and_eq_true, Option.isNone_iff_eq_none] at hcond
    exact ⟨t, hlookup, hcond.1.1.2, rfl, rfl, hcond.2⟩

theorem findSetupToken_ok {found : FoundToken}
    (h : findSetupToken svc now token db = .ok found) : findToken svc now token db = .ok found := by
  simp only [findSetupToken, except_bind_ok] at h
  obtain ⟨_, hfound, _, -, hok⟩ := h
  cases hok
  exact hfound

/-! Signing in. -/

theorem consumeCounter_ok {found : Credentials} {counter : Int} {loginAt : Option Int}
    (h : consumeCounter found counter loginAt db = .ok u db') :
    ∃ row, db.owners.lookup found.id = some row ∧ row.totpLastCounter < counter ∧
      row.credential.map (·.passwordHash) = some found.credential.passwordHash ∧
      row.removedAt = none ∧ db' = { db with
        owners := db.owners.insert found.id { row with
          totpLastCounter := counter, lastLoginAt := loginAt.elim row.lastLoginAt some } } := by
  simp only [consumeCounter, bind_ok, get_ok, need_ok, set_ok] at h
  obtain ⟨_, _, ⟨rfl, rfl⟩, owners, _, ⟨hchange, rfl⟩, rfl⟩ := h
  obtain ⟨row, hrow, hcond, rfl⟩ := Table.change_some.mp hchange
  simp only [Bool.and_eq_true, decide_eq_true_eq, beq_iff_eq, Option.isNone_iff_eq_none] at hcond
  exact ⟨row, hrow, hcond.1.1, hcond.1.2, hcond.2, rfl⟩

theorem commitLogin_ok {p : PreparedLogin} {login : OwnerLogin}
    (h : commitLogin svc env p db = .ok login db') :
    ∃ row session log, db.owners.lookup p.found.id = some row ∧ row.totpLastCounter < p.counter ∧
      row.credential.map (·.passwordHash) = some p.found.credential.passwordHash ∧
      row.removedAt = none ∧ session.ownerID = p.found.id ∧ db' = { db with
        owners := db.owners.insert p.found.id
          { row with totpLastCounter := p.counter, lastLoginAt := some (env.clock 0) }
        sessions := db.sessions.insert (env.id 0) session
        audit := log } := by
  simp only [commitLogin, bind_ok, pure_ok] at h
  obtain ⟨_, _, hconsume, _, _, hsession, _, _, haudit, -, rfl⟩ := h
  obtain ⟨row, hrow, hlt, hhash, hremoved, rfl⟩ := consumeCounter_ok hconsume
  obtain ⟨-, rfl⟩ := createSession_ok hsession
  obtain ⟨log, rfl⟩ := audit_ok haudit
  exact ⟨row, newSession svc (env.clock 1) (env.token 0) p.found.id p.input.userAgent, log, hrow, hlt,
    hhash, hremoved, rfl, rfl⟩

theorem commitStepUp_ok {p : PreparedStepUp} (h : commitStepUp svc env p db = .ok u db') :
    ∃ row session log, db.owners.lookup p.found.id = some row ∧ row.totpLastCounter < p.counter ∧
      row.credential.map (·.passwordHash) = some p.found.credential.passwordHash ∧
      row.removedAt = none ∧ db.sessions.lookup p.sessionID = some session ∧ db' = { db with
        owners := db.owners.insert p.found.id { row with totpLastCounter := p.counter }
        sessions := db.sessions.insert p.sessionID { session with recentAuthAt := env.clock 0 }
        audit := log } := by
  simp only [commitStepUp, bind_ok, get_ok, need_ok, set_ok] at h
  obtain ⟨_, _, hconsume, _, _, ⟨rfl, rfl⟩, sessions, _, ⟨hchange, rfl⟩, _, _, rfl, haudit⟩ := h
  obtain ⟨row, hrow, hlt, hhash, hremoved, rfl⟩ := consumeCounter_ok hconsume
  obtain ⟨session, hsession, -, rfl⟩ := Table.change_some.mp hchange
  obtain ⟨log, rfl⟩ := audit_ok haudit
  exact ⟨row, session, log, hrow, hlt, hhash, hremoved, hsession, rfl⟩

/-- The rows of owners before and after `installOwner`: a new row for the first owner, and
    no other is active; else the row that had no password. -/
inductive Installed (env : Env) (p : PreparedSetup) (db : Db) (owners : Table Bytes Owner) :
    Bytes → Prop
  | first (purpose : p.found.purpose.owner = none) (alone : countActiveOwners db [] = 0)
      (fresh : db.owners.lookup (env.id 0) = none) (nameKey : Bytes)
      (eq : owners = db.owners.insert (env.id 0) ⟨p.name, nameKey, some p.credential, p.counter,
        env.clock 0, some (env.clock 0), none⟩) : Installed env p db owners (env.id 0)
  | pending {owner : Bytes} {row : Owner} (purpose : p.found.purpose.owner = some owner)
      (lookup : db.owners.lookup owner = some row) (removed : row.removedAt = none)
      (credential : row.credential = none)
      (eq : owners = db.owners.insert owner { row with
        credential := some p.credential, totpLastCounter := p.counter,
        lastLoginAt := some (env.clock 0) }) : Installed env p db owners owner

theorem Installed.insert {owners : Table Bytes Owner} {owner : Bytes}
    (h : Installed env p db owners owner) : ∃ row, owners = db.owners.insert owner row := by
  cases h with
  | first _ _ _ _ eq => exact ⟨_, eq⟩
  | pending _ _ _ _ eq => exact ⟨_, eq⟩

theorem installOwner_ok {owner : Bytes} (h : installOwner svc env p db = .ok owner db') :
    ∃ owners, Installed env p db owners owner ∧ db' = { db with owners := owners } := by
  unfold installOwner at h
  dsimp only at h
  cases hpurpose : p.found.purpose.owner with
  | none =>
    rw [hpurpose] at h
    simp only [bind_ok, get_ok, refuse_ok, need_ok, set_ok, pure_ok] at h
    obtain ⟨_, _, ⟨rfl, rfl⟩, _, _, ⟨halone, rfl⟩, owners, _, ⟨hinsert, rfl⟩, _, _, rfl, rfl, rfl⟩ := h
    obtain ⟨hfresh, -, rfl⟩ := Table.insertNew_some.mp hinsert
    exact ⟨_, .first hpurpose (by omega) hfresh _ rfl, rfl⟩
  | some id =>
    rw [hpurpose] at h
    simp only [bind_ok, get_ok, need_ok, set_ok, pure_ok] at h
    obtain ⟨_, _, ⟨rfl, rfl⟩, owners, _, ⟨hchange, rfl⟩, _, _, rfl, rfl, rfl⟩ := h
    obtain ⟨row, hrow, hcond, rfl⟩ := Table.change_some.mp hchange
    simp only [Bool.and_eq_true, Option.isNone_iff_eq_none] at hcond
    exact ⟨_, .pending hpurpose hrow hcond.1 hcond.2 rfl, rfl⟩

theorem chooseUpdates_ok {actor : Actor} (h : chooseUpdates svc env p actor db = .ok u db') :
    ∃ choice log, db' = { db with updateChecks := choice, audit := log } := by
  simp only [chooseUpdates, chooseUpdatesAtSetup, forSome_ok, bind_ok, modify_ok] at h
  rcases h with ⟨enabled, -, _, _, rfl, haudit⟩ | ⟨-, rfl⟩
  · obtain ⟨log, rfl⟩ := audit_ok haudit
    exact ⟨_, log, rfl⟩
  · exact ⟨_, _, rfl⟩

theorem commitSetup_ok {reply : Bytes × OwnerLogin} (h : commitSetup svc env p db = .ok reply db') :
    ∃ t owners session choice log, db.setupTokens.lookup p.found.id = some t ∧ t.usedAt = none ∧
      Installed env p db owners reply.1 ∧ session.ownerID = reply.1 ∧ db' = { db with
        owners := owners
        setupTokens := db.setupTokens.insert p.found.id { t with usedAt := some (env.clock 0) }
        sessions := db.sessions.insert (env.id 1) session
        updateChecks := choice
        audit := log } := by
  simp only [commitSetup, bind_ok, get_ok, need_ok, set_ok, pure_ok] at h
  obtain ⟨_, _, ⟨rfl, rfl⟩, tokens, _, ⟨hchange, rfl⟩, _, _, rfl, owner, _, hinstall, login, _, hsession,
    _, _, haudit, _, _, hchoose, rfl, rfl⟩ := h
  obtain ⟨t, hlookup, hcond, rfl⟩ := Table.change_some.mp hchange
  obtain ⟨owners, hinstalled, rfl⟩ := installOwner_ok hinstall
  obtain ⟨-, rfl⟩ := createSession_ok hsession
  obtain ⟨log, rfl⟩ := audit_ok haudit
  obtain ⟨choice, log', rfl⟩ := chooseUpdates_ok hchoose
  simp only [Bool.and_eq_true, Option.isNone_iff_eq_none] at hcond
  refine ⟨t, owners, newSession svc (env.clock 1) (env.token 0) owner p.input.userAgent, choice, log',
    hlookup, hcond.1, ?_, rfl, rfl⟩
  cases hinstalled with
  | first purpose alone fresh nameKey eq => exact .first purpose alone fresh nameKey eq
  | pending purpose lookup removed credential eq =>
    exact .pending purpose lookup removed credential eq

/-! Holders. -/

theorem redeemable_some {code : Bytes} {row : PairingRow}
    (h : redeemable svc now code db = some (id, row)) :
    db.pairings.lookup id = some row ∧ row.live = true ∧ now < row.expiresAt := by
  obtain ⟨hrow, hcond⟩ := Table.find?_some h
  simp only [Bool.and_eq_true, decide_eq_true_eq] at hcond
  exact ⟨hrow, hcond.1.2, hcond.2⟩

theorem insertDevice_ok {row : DeviceRow} (h : insertDevice id row db = .ok u db') :
    (db.holderName row.holder).isSome = true ∧ db.devices.lookup id = none ∧
      db' = { db with devices := db.devices.insert id row } := by
  simp only [insertDevice, bind_ok, get_ok, refuse_ok, need_ok, set_ok] at h
  obtain ⟨_, _, ⟨rfl, rfl⟩, _, _, ⟨hholder, rfl⟩, devices, _, ⟨hinsert, rfl⟩, rfl⟩ := h
  obtain ⟨hnone, -, rfl⟩ := Table.insertNew_some.mp hinsert
  exact ⟨by simpa [Option.isSome_iff_ne_none] using hholder, hnone, rfl⟩

def PairingRow.redeem (now : Int) (deviceID : Bytes) (p : PairingRow) : PairingRow :=
  { p with usedAt := some now, deviceID := some deviceID }

/-! Maintenance. -/

/-- The tables after the first five statements of `Maintain`. -/
def Db.swept (now : Int) (db : Db) : Db :=
  { db with
    sessions := db.sessions.deleteWhere fun _ s => decide (s.expiresAt ≤ now)
    setupTokens := db.setupTokens.deleteWhere fun _ t => decide (t.expiresAt ≤ now) || t.usedAt.isSome
    pairings := db.pairings.deleteWhere fun _ p => db.stalePairing (now - pairingRetention) p
    devices := db.devices.deleteWhere fun _ d => d.expired (now - deviceRetention)
    rateLimits := db.rateLimits.deleteWhere fun _ r =>
      decide (r.windowStartedAt + r.windowSeconds ≤ now) }

/-- An owner that the sixth statement deletes. -/
def Db.ownerGone (db : Db) (cutoff : Int) (id : Bytes) : Bool :=
  (db.owners.lookup id).any fun o => db.forgotten cutoff (.owner id) o.removedAt

/-- The tables after the last two. -/
def Db.pruned (cutoff : Int) (db : Db) : Db :=
  { db with
    owners := db.owners.deleteWhere fun id o => db.forgotten cutoff (.owner id) o.removedAt
    sessions := db.sessions.deleteWhere fun _ s => db.ownerGone cutoff s.ownerID
    setupTokens := db.setupTokens.deleteWhere fun _ t => t.purpose.owner.any (db.ownerGone cutoff)
    members := db.members.deleteWhere fun id m => db.forgotten cutoff (.member id) m.removedAt }

theorem maintain_ok {report : MaintenanceReport} (h : maintain env db = .ok report db') :
    db' = (db.swept (env.clock 0)).pruned (env.clock 0 - holderRetention) := by
  simp only [maintain, deleteDevices, deleteOwners, deleteMembers, bind_ok, get_ok, refuse_ok, set_ok,
    modify_ok, pure_ok] at h
  obtain ⟨_, _, ⟨rfl, rfl⟩, _, _, rfl, _, _, devices, _, _, rfl, _, _, owners, _, _, members, -, rfl⟩ := h
  obtain ⟨_, _, ⟨rfl, rfl⟩, _, _, ⟨-, rfl⟩, _, _, rfl, -, rfl⟩ := devices
  obtain ⟨_, _, ⟨rfl, rfl⟩, _, _, ⟨-, rfl⟩, _, _, rfl, -, rfl⟩ := owners
  obtain ⟨_, _, ⟨rfl, rfl⟩, _, _, ⟨-, rfl⟩, _, _, rfl, -, rfl⟩ := members
  rfl

end Sesame.Selfhost
