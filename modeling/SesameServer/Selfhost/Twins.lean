import SesameServer.Lib.Agree
import SesameServer.Lib.Alike
import SesameServer.Selfhost.References
import SesameServer.Selfhost.Standing

/- Two stores that no call can tell apart any more.

   A row is spent when no call from a given time on looks at it: what is removed, revoked,
   cancelled, used or expired stays so. `Twin since db db'` says that two stores hold the same
   rows, but for those that are spent at `since`; their audit logs may differ.

   1. What is read at `since` or later is the same in both.
   2. Every transaction whose clock shows `since` or later leaves twins of twins; all but
      `RevokeDevice` and the counts of revoked devices end with the same reply. -/
namespace Sesame.Selfhost
open Outcome Table

/-! Spent rows. -/

def Owner.spent (o : Owner) : Bool := o.removedAt.isSome
def Member.spent (m : Member) : Bool := m.removedAt.isSome
def SetupToken.spent (now : Int) (t : SetupToken) : Bool := t.usedAt.isSome || decide (t.expiresAt ≤ now)
def SessionRow.spent (now : Int) (s : SessionRow) : Bool := decide (s.expiresAt ≤ now)
def DeviceRow.spent (now : Int) (d : DeviceRow) : Bool := !d.live || decide (d.expiresAt ≤ now)
def PairingRow.spent (now : Int) (p : PairingRow) : Bool := !p.live || decide (p.expiresAt ≤ now)
def RateRow.spent (now : Int) (r : RateRow) : Bool := decide (r.windowStartedAt + r.windowSeconds ≤ now)

structure Twin (since : Int) (db db' : Db) : Prop where
  owners : Agree (fun _ o => o.spent) db.owners db'.owners
  members : Agree (fun _ m => m.spent) db.members db'.members
  setupTokens : Agree (fun _ t => t.spent since) db.setupTokens db'.setupTokens
  sessions : Agree (fun _ s => s.spent since) db.sessions db'.sessions
  devices : Agree (fun _ d => d.spent since) db.devices db'.devices
  pairings : Agree (fun _ p => p.spent since) db.pairings db'.pairings
  rateLimits : Agree (fun _ r => r.spent since) db.rateLimits db'.rateLimits

/-- What a call draws from `crypto/rand` is new to the tables, and the number of devices can be
    written into an audit entry. -/
structure New (svc : Service) (env : Env) (db : Db) : Prop where
  owners : ∀ n : Fin 2, db.owners.lookup (env.id n) = none
  members : ∀ n : Fin 2, db.members.lookup (env.id n) = none
  setupTokens : ∀ n : Fin 2,
    db.setupTokens.Fresh (env.id n) fun t => t.tokenHash == svc.hashToken (env.token 0)
  sessions : ∀ n : Fin 2,
    db.sessions.Fresh (env.id n) fun s => s.tokenHash == svc.hashToken (env.token 0)
  devices : ∀ n : Fin 2,
    db.devices.Fresh (env.id n) fun d => d.tokenHash == svc.hashToken (env.token 0)
  pairings : ∀ n : Fin 2,
    db.pairings.Fresh (env.id n) fun p => p.codeHash == svc.hashToken (env.token 0)
  few : db.devices.entries.length < 10 ^ maxAuditDetailValueBytes

instance (svc : Service) (env : Env) (db : Db) : Decidable (New svc env db) :=
  decidable_of_iff (_ ∧ _ ∧ _ ∧ _ ∧ _ ∧ _ ∧ _)
    ⟨fun ⟨owners, members, setupTokens, sessions, devices, pairings, few⟩ =>
      ⟨owners, members, setupTokens, sessions, devices, pairings, few⟩,
    fun new => ⟨new.owners, new.members, new.setupTokens, new.sessions, new.devices, new.pairings,
      new.few⟩⟩

/-- Two stores as a call meets them that is made at `since` or later. -/
structure Met (svc : Service) (env : Env) (since : Int) (db db' : Db) : Prop extends
    Twin since db db' where
  homed : Homed db
  late : ∀ n, since ≤ env.clock n
  new : New svc env db
  new' : New svc env db'

/-- The transaction ends with the same reply in both, and leaves twins. -/
abbrev Blind {α : Type} (since : Int) (db db' : Db) (x : Tx α) : Prop :=
  Alike (Same (Twin since)) (x db) (x db')

variable {svc : Service} {env : Env} {since now : Int} {db db' : Db} {by_ : Actor}
  {id token name : Bytes} {holder : Holder}

/-! What is not spent. -/

theorem Owner.spent_of_isNone {o : Owner} (h : o.removedAt.isNone = true) : o.spent = false :=
  Option.isSome_eq_false_iff.mpr h

theorem Owner.spent_of_active {o : Owner} (h : o.active = true) : o.spent = false :=
  spent_of_isNone (Bool.and_eq_true_iff.mp h).1

theorem Member.spent_of_isNone {m : Member} (h : m.removedAt.isNone = true) : m.spent = false :=
  Option.isSome_eq_false_iff.mpr h

theorem not_lapsed {at_ : Int} (late : since ≤ now) (h : now < at_) : decide (at_ ≤ since) = false :=
  decide_eq_false (by omega)

theorem DeviceRow.not_spent {d : DeviceRow} (late : since ≤ now) (live : d.live = true)
    (h : now < d.expiresAt) : d.spent since = false := by
  rw [spent, live, not_lapsed late h]; rfl

theorem PairingRow.not_spent {p : PairingRow} (late : since ≤ now) (live : p.live = true)
    (h : now < p.expiresAt) : p.spent since = false := by
  rw [spent, live, not_lapsed late h]; rfl

theorem SetupToken.not_spent {t : SetupToken} (late : since ≤ now) (unused : t.usedAt.isNone = true)
    (h : now < t.expiresAt) : t.spent since = false := by
  rw [spent, Option.isNone_iff_eq_none.mp unused, not_lapsed late h]; rfl

theorem Db.Standing.same (h : db.Standing holder) (howners : db'.owners = db.owners)
    (hmembers : db'.members = db.members) : db'.Standing holder := by
  cases holder with
  | owner id => simpa only [Db.Standing, howners] using h
  | member id => simpa only [Db.Standing, hmembers] using h

/-! Counts in audit entries. -/

theorem countText_length {n : Nat} (h : n < 10 ^ maxAuditDetailValueBytes) :
    (countText n).length ≤ maxAuditDetailValueBytes :=
  Encoding.decimal_length_le (by decide) h

theorem New.count (new : New svc env db) (p : Bytes → DeviceRow → Bool) :
    db.devices.count p < 10 ^ maxAuditDetailValueBytes :=
  lt_of_le_of_lt List.countP_le_length new.few

variable {target key : Bytes}

/-- Whether an entry may be written does not depend on a count in it. -/
theorem validAuditInput_counts {action : Bytes} (front : List (Bytes × Bytes))
    (sorted : ∀ v : Bytes, (front ++ [(key, v)]).Pairwise fun x y => Json.Before x.1 y.1)
    {n n' : Nat} (h : n < 10 ^ maxAuditDetailValueBytes) (h' : n' < 10 ^ maxAuditDetailValueBytes) :
    validAuditInput ⟨by_, action, target, .ofMembers (front ++ [(key, countText n)])⟩ =
      validAuditInput ⟨by_, action, target, .ofMembers (front ++ [(key, countText n')])⟩ := by
  have entries (v : Bytes) :
      (Json.StringMap.ofMembers (front ++ [(key, v)])).entries = front ++ [(key, v)] :=
    Json.ofMembers_append [] _ (sorted v) .empty rfl
  have short := not_lt.mpr (countText_length h)
  have short' := not_lt.mpr (countText_length h')
  simp only [validAuditInput, entries, List.length_append, List.length_singleton, List.all_append,
    List.all_cons, List.all_nil, gt_iff_lt, short, short']

/-! What is read. -/

/-- The tables after a transaction, which is rolled back if it fails. -/
def leaves {α : Type} (x : Tx α) (db : Db) : Db :=
  match x db with
  | .ok _ db' => db'
  | .error _ _ => db

namespace Twin

theorem refl (db : Db) : Twin since db db := ⟨rfl, rfl, rfl, rfl, rfl, rfl, rfl⟩

/-- A device that is spent already, or is not there, is revoked unseen. -/
theorem unseen (h : (db.devices.lookup id).filter (fun d => !d.spent since) = none) :
    Twin since (leaves (revokeDevice svc env by_ id) db) db := by
  rw [leaves]
  cases hrun : Selfhost.revokeDevice svc env by_ id db with
  | error e _ => exact refl db
  | ok u after =>
    rcases revokeDevice_ok hrun with rfl | ⟨d, log, hd, rfl⟩
    · exact refl _
    · refine { refl db with devices := Agree.insert_spent ?_ fun d hd => by simpa [hd] using h }
      simp [DeviceRow.spent, DeviceRow.revoke, DeviceRow.live]

variable (twin : Twin since db db')
include twin

theorem symm : Twin since db' db :=
  ⟨twin.owners.symm, twin.members.symm, twin.setupTokens.symm, twin.sessions.symm, twin.devices.symm,
    twin.pairings.symm, twin.rateLimits.symm⟩

theorem trans {db'' : Db} (twin' : Twin since db' db'') : Twin since db db'' :=
  ⟨twin.owners.trans twin'.owners, twin.members.trans twin'.members,
    twin.setupTokens.trans twin'.setupTokens, twin.sessions.trans twin'.sessions,
    twin.devices.trans twin'.devices, twin.pairings.trans twin'.pairings,
    twin.rateLimits.trans twin'.rateLimits⟩

theorem leaves_twin {α β : Type} {x : Tx α} {y : Tx β}
    (h : Alike (fun _ s _ t => Twin since s t) (x db) (y db')) :
    Twin since (leaves x db) (leaves y db') := by
  unfold leaves
  generalize x db = rx at h
  generalize y db' = ry at h
  cases h with
  | ok related => exact related
  | error => exact twin

theorem countActiveOwners : countActiveOwners db id = countActiveOwners db' id :=
  twin.owners.count fun _ _ h => Owner.spent_of_active (Bool.and_eq_true_iff.mp h).1

theorem ownerCredentials (where_ : Bytes → Owner → Bool) :
    ownerCredentials db where_ = ownerCredentials db' where_ := by
  unfold Selfhost.ownerCredentials
  rw [twin.owners.find? fun _ _ h => Owner.spent_of_active (Bool.and_eq_true_iff.mp h).1]

theorem prepareLogin (input : LoginInput) :
    prepareLogin svc env input db = prepareLogin svc env input db' := by
  unfold Selfhost.prepareLogin
  simp only [twin.ownerCredentials]

theorem prepareStepUp (input : StepUpInput) (current : OwnerSession) :
    prepareStepUp svc env input current db = prepareStepUp svc env input current db' := by
  unfold Selfhost.prepareStepUp
  rw [twin.ownerCredentials]

/-- A holder that stands is the same in both. -/
theorem standing (h : db.Standing holder) :
    db'.Standing holder ∧ db.holderName holder = db'.holderName holder := by
  cases holder with
  | owner id =>
    obtain ⟨o, ho, hstanding⟩ := h
    have ho' := twin.owners.lookup_some ho (Owner.spent_of_isNone (by simp [hstanding]))
    exact ⟨⟨o, ho', hstanding⟩, by rw [Db.holderName, Db.holderName, ho, ho']⟩
  | member id =>
    obtain ⟨m, hm, hstanding⟩ := h
    have hm' := twin.members.lookup_some hm (Member.spent_of_isNone (by simp [hstanding]))
    exact ⟨⟨m, hm', hstanding⟩, by rw [Db.holderName, Db.holderName, hm, hm']⟩

theorem standing_owner (h : db.Standing (.owner id)) : db.owners.lookup id = db'.owners.lookup id := by
  obtain ⟨o, ho, hstanding⟩ := h
  rw [ho, twin.owners.lookup_some ho (Owner.spent_of_isNone (by simp [hstanding]))]

theorem readDevice (h : db.Standing holder) {d : DeviceRow} (own : d.holder = holder) :
    db.readDevice id d = db'.readDevice id d := by
  subst own
  rw [Db.readDevice, (twin.standing h).2, Db.readDevice]

theorem resolveHolder : db.resolveHolder holder = db'.resolveHolder holder := by
  cases holder with
  | owner id => rw [Db.resolveHolder, twin.owners.lookup fun _ => Owner.spent_of_active, Db.resolveHolder]
  | member id => rw [Db.resolveHolder, twin.members.lookup fun _ => Member.spent_of_isNone, Db.resolveHolder]

theorem activeDevice (late : since ≤ now) :
    activeDevice svc now token db = activeDevice svc now token db' := by
  refine twin.devices.find? fun _ d h => ?_
  simp only [Bool.and_eq_true, decide_eq_true_eq] at h
  exact DeviceRow.not_spent late h.1.2 h.2

theorem redeemable (late : since ≤ now) : redeemable svc now token db = redeemable svc now token db' := by
  refine twin.pairings.find? fun _ p h => ?_
  simp only [Bool.and_eq_true, decide_eq_true_eq] at h
  exact PairingRow.not_spent late h.1.2 h.2

theorem authenticateDevice (homed : Homed db) (late : since ≤ now) :
    authenticateDevice svc now token db = authenticateDevice svc now token db' := by
  unfold Selfhost.authenticateDevice
  rw [← twin.activeDevice late]
  split
  · rfl
  · split
    · rfl
    · next id d hfind =>
      obtain ⟨hd, hcond⟩ := Table.find?_some hfind
      simp only [Bool.and_eq_true] at hcond
      rw [twin.readDevice (homed _ (.device hd hcond.1.2)) rfl]

theorem any_active : (db.owners.lookup id).any (·.active) = (db'.owners.lookup id).any (·.active) := by
  have filter (o : Option Owner) : o.any (·.active) = (o.filter (·.active)).isSome := by
    cases o with
    | none => rfl
    | some o => cases h : o.active <;> simp [h]
  rw [filter, filter, twin.owners.lookup fun _ => Owner.spent_of_active]

theorem session (late : since ≤ now) : session svc now token db = session svc now token db' := by
  unfold Selfhost.session
  simp only [← twin.any_active]
  rw [← twin.sessions.find? fun _ s h => ?_]
  · split
    · rfl
    · split
      · rfl
      · next id s hsome =>
        obtain ⟨o, ho, hactive⟩ := (Option.any_eq_true _ _).mp
          (Bool.and_eq_true_iff.mp (Table.find?_some hsome).2).2
        rw [ho, twin.owners.lookup_some ho (Owner.spent_of_active hactive)]
  · simp only [Bool.and_eq_true, decide_eq_true_eq] at h
    exact not_lapsed late h.1.2

/-- The owner of a token that is not used stands, so whether they are pending is the same. -/
theorem findToken (homed : Homed db) (late : since ≤ now) :
    findToken svc now token db = findToken svc now token db' := by
  have owner {k : Bytes} {t : SetupToken} (hk : db.setupTokens.lookup k = some t)
      (unused : t.usedAt.isNone = true) :
      ∀ owner, t.purpose.owner = some owner → db.owners.lookup owner = db'.owners.lookup owner :=
    fun owner own => twin.standing_owner (homed _ (.token hk (Option.isNone_iff_eq_none.mp unused) own))
  unfold Selfhost.findToken
  rw [Table.find?_congr (q := fun _ t => t.tokenHash == svc.hashToken token && t.usedAt.isNone &&
    decide (now < t.expiresAt) && ownerPending db' t.purpose) fun k t hk => ?_,
    ← twin.setupTokens.find? fun _ t h => ?_]
  · split
    · rfl
    · next id t hsome =>
      obtain ⟨hk, hcond⟩ := Table.find?_some hsome
      simp only [Bool.and_eq_true] at hcond
      cases own : t.purpose.owner with
      | none => rfl
      | some o => rw [Option.bind_some, Option.bind_some, owner hk hcond.1.1.2 o own]
  · simp only [Bool.and_eq_true, decide_eq_true_eq] at h
    exact SetupToken.not_spent late h.1.1.2 h.1.2
  · cases unused : t.usedAt.isNone with
    | false => simp
    | true =>
      congr 1
      unfold ownerPending
      cases own : t.purpose.owner with
      | none => rfl
      | some o => rw [Option.all_some, Option.all_some, owner hk unused o own]

theorem checkFirst (purpose : Purpose) : checkFirst purpose db = checkFirst purpose db' := by
  unfold Selfhost.checkFirst
  simp only [twin.countActiveOwners]

theorem findSetupToken (homed : Homed db) (late : since ≤ now) :
    findSetupToken svc now token db = findSetupToken svc now token db' := by
  unfold Selfhost.findSetupToken
  simp only [twin.findToken homed late, twin.checkFirst]

/-! One table is written. -/

theorem setOwners {a c : Table Bytes Owner} (h : Agree (fun _ o => o.spent) a c) :
    Twin since { db with owners := a } { db' with owners := c } := { twin with owners := h }

theorem setMembers {a c : Table Bytes Member} (h : Agree (fun _ m => m.spent) a c) :
    Twin since { db with members := a } { db' with members := c } := { twin with members := h }

theorem setTokens {a c : Table Bytes SetupToken} (h : Agree (fun _ t => t.spent since) a c) :
    Twin since { db with setupTokens := a } { db' with setupTokens := c } := { twin with setupTokens := h }

theorem setSessions {a c : Table Bytes SessionRow} (h : Agree (fun _ s => s.spent since) a c) :
    Twin since { db with sessions := a } { db' with sessions := c } := { twin with sessions := h }

theorem setDevices {a c : Table Bytes DeviceRow} (h : Agree (fun _ d => d.spent since) a c) :
    Twin since { db with devices := a } { db' with devices := c } := { twin with devices := h }

theorem setPairings {a c : Table Bytes PairingRow} (h : Agree (fun _ p => p.spent since) a c) :
    Twin since { db with pairings := a } { db' with pairings := c } := { twin with pairings := h }

theorem setRateLimits {a c : Table Bytes RateRow} (h : Agree (fun _ r => r.spent since) a c) :
    Twin since { db with rateLimits := a } { db' with rateLimits := c } := { twin with rateLimits := h }

theorem revoked (at_ : Int) (holder : Holder) :
    Twin since { db with devices := revokedOf at_ holder db.devices }
      { db' with devices := revokedOf at_ holder db'.devices } :=
  twin.setDevices (twin.devices.updateWhere _ _ fun _ _ _ _ => by simp [DeviceRow.spent, DeviceRow.live])

theorem cancelled (at_ : Int) (holder : Holder) :
    Twin since { db with pairings := cancelledOf at_ holder db.pairings }
      { db' with pairings := cancelledOf at_ holder db'.pairings } :=
  twin.setPairings (twin.pairings.updateWhere _ _ fun _ _ _ _ => by
    simp [PairingRow.spent, PairingRow.live])

/-! Parts of transactions. -/

variable {action : String} {detail : List (Bytes × Bytes)}

/-- Entries that may be written for both, or for neither. -/
theorem audit_counts {detail' : List (Bytes × Bytes)}
    (h : validAuditInput ⟨by_, utf8 action, target, .ofMembers detail⟩ =
      validAuditInput ⟨by_, utf8 action, target, .ofMembers detail'⟩) :
    Alike (Same (Twin since)) (audit svc now by_ action target detail db)
      (audit svc now by_ action target detail' db') := by
  unfold Selfhost.audit
  refine .get (.need (Q := fun _ _ => True) ?_ fun a c _ => ?_)
  · unfold appendAudit
    rw [h]
    split
    · exact .some trivial
    · exact .none
  · exact .ok ⟨rfl, { twin with }⟩

theorem audit : Blind since db db' (audit svc now by_ action target detail) := twin.audit_counts rfl

theorem readOwner : Blind since db db' (readOwner id) := by
  unfold Selfhost.readOwner
  exact .get (.need_same (twin.owners.lookup fun _ => Owner.spent_of_isNone)
    fun o _ => .ok ⟨rfl, twin⟩)

theorem insertSetupToken {purpose : Purpose}
    (new : db.setupTokens.Fresh id fun t => t.tokenHash == svc.hashToken token)
    (new' : db'.setupTokens.Fresh id fun t => t.tokenHash == svc.hashToken token)
    (stands : ∀ owner, purpose.owner = some owner → db.Standing (.owner owner)) :
    Blind since db db' (insertSetupToken svc now id token purpose by_) := by
  unfold Selfhost.insertSetupToken
  refine .get (.refuse ?_ fun _ => .need
    (twin.setupTokens.insertFresh new new') fun a c agree => .set ?_)
  · cases own : purpose.owner with
    | none => simp
    | some owner => simp [twin.standing_owner (stands owner own)]
  · have twin := twin.setTokens agree
    refine .bind (Q := Same (Twin since)) ?_ fun _ _ _ _ h => .pure ⟨h.1 ▸ rfl, h.2⟩
    unfold readIssued
    cases purpose.owner with
    | none => exact .ok ⟨rfl, twin⟩
    | some owner =>
      exact .bind twin.readOwner fun _ _ _ _ h => .pure ⟨h.1 ▸ rfl, h.2⟩

theorem dropAccess (id : Bytes) : Twin since (dropAccess db id) (dropAccess db' id) :=
  { twin with
    sessions := twin.sessions.deleteWhere fun _ _ _ _ _ => rfl
    setupTokens := twin.setupTokens.deleteWhere fun _ _ _ _ _ => rfl }

/-- An entry is written, and the call returns. -/
theorem noted {α β : Type} {a : α} {b : β} {R : α → Db → β → Db → Prop}
    (related : ∀ s t, Twin since s t → R a s b t) :
    Alike R ((Selfhost.audit svc now by_ action target detail >>= fun _ => pure a) db)
      ((Selfhost.audit svc now by_ action target detail >>= fun _ => pure b) db') :=
  .bind twin.audit fun _ s _ t h => .pure (related s t h.2)

/-- The counter is consumed; the owner stands, and nothing else is written. -/
theorem consumeCounter {found : Credentials} {counter : Int} {loginAt : Option Int} :
    Alike (fun _ s _ t => Twin since s t ∧ s.Standing (.owner found.id) ∧ s.sessions = db.sessions ∧
        t.sessions = db'.sessions)
      (consumeCounter found counter loginAt db) (consumeCounter found counter loginAt db') := by
  unfold Selfhost.consumeCounter
  refine .get (.need (twin.owners.change (fun o h => Owner.spent_of_isNone
    (Bool.and_eq_true_iff.mp h).2) _) fun a c agree => .ok ?_)
  obtain ⟨agree, o, hcond, hrow⟩ := agree
  have standing := Option.isNone_iff_eq_none.mp (Bool.and_eq_true_iff.mp hcond).2
  exact ⟨twin.setOwners agree, ⟨_, hrow, standing⟩, rfl, rfl⟩

theorem createSession {ownerID userAgent : Bytes} (stands : db.Standing (.owner ownerID))
    (new : db.sessions.Fresh id fun s => s.tokenHash == svc.hashToken token)
    (new' : db'.sessions.Fresh id fun s => s.tokenHash == svc.hashToken token) :
    Blind since db db' (createSession svc now id token ownerID userAgent) := by
  unfold Selfhost.createSession
  refine .get (.refuse (by rw [twin.standing_owner stands]) fun _ =>
    .need (twin.sessions.insertFresh new new') fun a c agree => .set ?_)
  exact .bind (twin.setSessions agree).readOwner fun _ _ _ _ h => .pure ⟨h.1 ▸ rfl, h.2⟩

theorem installOwner (new : db.owners.lookup (env.id 0) = none)
    (new' : db'.owners.lookup (env.id 0) = none) (p : PreparedSetup) :
    Alike (fun a s b t => a = b ∧ Twin since s t ∧ s.Standing (.owner a) ∧ s.sessions = db.sessions ∧
        t.sessions = db'.sessions)
      (installOwner svc env p db) (installOwner svc env p db') := by
  unfold Selfhost.installOwner
  dsimp only
  cases p.found.purpose.owner with
  | none =>
    refine .get (.refuse (by rw [twin.countActiveOwners]) fun _ => .need
      (twin.owners.insertNew new new' fun _ o h =>
        Owner.spent_of_isNone (Bool.and_eq_true_iff.mp h).1) fun a c agree => .ok ?_)
    exact ⟨rfl, twin.setOwners agree.1, ⟨_, agree.2, rfl⟩, rfl, rfl⟩
  | some owner =>
    refine .get (.need (twin.owners.change (fun o h => Owner.spent_of_isNone
      (Bool.and_eq_true_iff.mp h).1) _) fun a c agree => .ok ?_)
    obtain ⟨agree, o, hcond, hrow⟩ := agree
    have standing := Option.isNone_iff_eq_none.mp (Bool.and_eq_true_iff.mp hcond).1
    exact ⟨rfl, twin.setOwners agree, ⟨_, hrow, standing⟩, rfl, rfl⟩

theorem chooseUpdates (p : PreparedSetup) {actor : Actor} :
    Blind since db db' (chooseUpdates svc env p actor) := by
  unfold Selfhost.chooseUpdates forSome
  cases (if p.found.purpose = .first then p.input.updateChecks else none) with
  | none => exact .ok ⟨rfl, twin⟩
  | some enabled =>
    have twin : Twin since { db with updateChecks := some enabled }
      { db' with updateChecks := some enabled } := { twin with }
    exact .modify twin.audit

theorem insertDevice {row : DeviceRow} (stands : db.Standing row.holder)
    (new : db.devices.Fresh id fun d => d.tokenHash == row.tokenHash)
    (new' : db'.devices.Fresh id fun d => d.tokenHash == row.tokenHash) :
    Alike (fun _ s _ t => Twin since s t ∧ s.Standing row.holder) (insertDevice id row db)
      (insertDevice id row db') := by
  unfold Selfhost.insertDevice
  refine .get (.refuse (by rw [(twin.standing stands).2]) fun _ =>
    .need (twin.devices.insertFresh new new') fun a c agree =>
      .ok ⟨twin.setDevices agree, stands.same rfl rfl⟩)

/-- A window that was over at `since` is over, and counts as none. -/
theorem next_row (late : since ≤ now) (seconds : Int) (key : Bytes) :
    RateRow.next now seconds (db.rateLimits.lookup key) =
      RateRow.next now seconds (db'.rateLimits.lookup key) := by
  have left (o : Option RateRow) : RateRow.next now seconds o =
      RateRow.next now seconds (o.filter fun r => !r.spent since) := by
    cases o with
    | none => rfl
    | some r =>
      by_cases hspent : r.spent since = true
      · rw [Option.filter_some_neg (by simp [hspent])]
        have hover : r.windowStartedAt + r.windowSeconds ≤ now :=
          (of_decide_eq_true hspent).trans late
        simp [RateRow.next, hover]
      · rw [Option.filter_some_pos (by simpa using hspent)]
  rw [left, twin.rateLimits.lookup fun r h => by simpa using h, ← left]

end Twin

namespace Met

variable (met : Met svc env since db db')
include met

theorem counted {action : Bytes} (front : List (Bytes × Bytes))
    (sorted : ∀ v : Bytes, (front ++ [(key, v)]).Pairwise fun x y => Json.Before x.1 y.1)
    (p : Bytes → DeviceRow → Bool) : validAuditInput
        ⟨by_, action, target, .ofMembers (front ++ [(key, countText (db.devices.count p))])⟩ =
      validAuditInput
        ⟨by_, action, target, .ofMembers (front ++ [(key, countText (db'.devices.count p))])⟩ :=
  validAuditInput_counts front sorted (met.new.count p) (met.new'.count p)

/-! Owners. -/

theorem startFirstSetup : Blind since db db' (startFirstSetup svc env) := by
  unfold Selfhost.startFirstSetup
  refine .get (.refuse (by rw [met.countActiveOwners]) fun _ => .set ?_)
  have twin := met.setTokens (met.setupTokens.deleteWhere
    (q := fun _ t => t.purpose == .first && t.usedAt.isNone) fun _ _ _ _ _ => rfl)
  refine .bind (twin.insertSetupToken ((met.new.setupTokens 0).deleteWhere _)
    ((met.new'.setupTokens 0).deleteWhere _) nofun) fun _ _ _ _ h => ?_
  exact h.2.noted fun _ _ h' => ⟨h.1, h'⟩

theorem inviteOwner : Blind since db db' (inviteOwner svc env by_ name) := by
  unfold Selfhost.inviteOwner
  refine .need_same rfl fun normalized _ => .get (.need (met.owners.insertNew
    (met.new.owners 0) (met.new'.owners 0) fun _ o h => Owner.spent_of_isNone
    (Bool.and_eq_true_iff.mp h).1) fun a c agree => .set ?_)
  refine .bind ((met.setOwners agree.1).insertSetupToken (met.new.setupTokens 1)
    (met.new'.setupTokens 1) ?_) fun _ _ _ _ h => h.2.noted fun _ _ h' => ⟨h.1, h'⟩
  rintro owner ⟨⟩
  exact ⟨_, agree.2, rfl⟩

theorem resetOwner : Alike (fun _ s _ t => Twin since s t) (resetOwner svc env by_ name db)
      (resetOwner svc env by_ name db') := by
  unfold Selfhost.resetOwner
  refine .need_same rfl fun normalized _ => .get (.need_same
    (met.owners.find? fun _ o h => Owner.spent_of_isNone (Bool.and_eq_true_iff.mp h).1)
    fun found hfound => .set ?_)
  have twin := (met.setOwners (met.owners.updateWhere (fun k _ => k == found.1)
    (fun o => { o with credential := none }) fun _ _ h _ => h)).dropAccess found.1
  refine .run rfl rfl (.run rfl rfl ?_)
  have twin := (twin.revoked (env.clock 0) (.owner found.1)).cancelled (env.clock 0) (.owner found.1)
  refine .bind (twin.insertSetupToken ((met.new.setupTokens 0).deleteWhere _)
    ((met.new'.setupTokens 0).deleteWhere _) ?_) fun _ _ _ _ h => ?_
  · -- the owner who is reset stands, and does so after the update
    rintro owner ⟨⟩
    obtain ⟨hrow, hname⟩ := Table.find?_some hfound
    refine ⟨_, Table.lookup_updateWhere_some.mpr ⟨_, hrow, if_pos (by simp)⟩, ?_⟩
    exact Option.isNone_iff_eq_none.mp (Bool.and_eq_true_iff.mp hname).1
  · refine .bind (h.2.audit_counts (met.counted [(utf8 "name", normalized)] ?_ _))
      fun _ _ _ _ h => .pure h.2
    intro v
    simp only [List.cons_append, List.nil_append, List.pairwise_pair]
    decide

theorem removeOwner : Blind since db db' (removeOwner svc env by_ id) := by
  unfold Selfhost.removeOwner
  refine .get (.need_same (met.owners.lookup fun _ => Owner.spent_of_isNone) fun o _ =>
    .refuse (by rw [met.countActiveOwners]) fun _ => .set ?_)
  have twin := (met.setOwners (met.owners.updateWhere (fun k _ => k == id)
    (fun o => { o with removedAt := some (env.clock 0), credential := none })
    fun _ _ _ _ => rfl)).dropAccess id
  refine .run rfl rfl (.run rfl rfl ?_)
  have twin := (twin.revoked (env.clock 0) (.owner id)).cancelled (env.clock 0) (.owner id)
  exact twin.audit_counts (met.counted [] (by simp) _)

theorem setupDetails : Blind since db db' (setupDetails svc env token) := by
  unfold Selfhost.setupDetails
  refine .refuse Iff.rfl fun _ => .get (.lift_same (met.findSetupToken met.homed (met.late 0))
    fun found _ => .bind (Q := Same (Twin since)) ?_ fun _ _ _ _ h => .pure ⟨h.1 ▸ rfl, h.2⟩)
  unfold tokenSecret
  cases found.secret with
  | some sealedSecret =>
    dsimp only
    cases svc.openSecret sealedSecret with
    | none => exact .error
    | some secret => exact .ok ⟨rfl, met.toTwin⟩
  | none => exact .ok ⟨rfl, met.setTokens (met.setupTokens.updateWhere _ _ fun _ _ h _ => h)⟩

theorem logout : Blind since db db' (logout svc token) := by
  unfold Selfhost.logout onlyIf
  split
  · exact .ok ⟨rfl, met.setSessions (met.sessions.deleteWhere fun _ _ _ _ _ => rfl)⟩
  · exact .ok ⟨rfl, met.toTwin⟩

/-! Signing in. -/

theorem commitLogin (p : PreparedLogin) : Blind since db db' (commitLogin svc env p) := by
  unfold Selfhost.commitLogin
  refine .bind met.consumeCounter fun _ s _ t ⟨twin, stands, hs, ht⟩ => ?_
  refine .bind (twin.createSession stands (hs ▸ met.new.sessions 0)
    (ht ▸ met.new'.sessions 0)) fun _ _ _ _ h => ?_
  exact h.2.noted fun _ _ h' => ⟨h.1, h'⟩

theorem commitStepUp (p : PreparedStepUp) : Blind since db db' (commitStepUp svc env p) := by
  unfold Selfhost.commitStepUp
  refine .bind met.consumeCounter fun _ s _ t ⟨twin, _⟩ => .get (.need
    (twin.sessions.change (fun r h => not_lapsed (met.late 0) (by simpa using h)) _)
    fun a c agree => .set ?_)
  exact (twin.setSessions agree.1).audit

theorem commitSetup (p : PreparedSetup) : Blind since db db' (commitSetup svc env p) := by
  unfold Selfhost.commitSetup
  refine .get (.need (met.setupTokens.change (fun t h => ?_) _) fun a c agree =>
    .set (.bind ((met.setTokens agree.1).installOwner (met.new.owners 0)
      (met.new'.owners 0) p) ?_))
  · simp only [Bool.and_eq_true, decide_eq_true_eq] at h
    exact SetupToken.not_spent (met.late 0) h.1 h.2
  · rintro owner s _ t ⟨rfl, twin, stands, hs, ht⟩
    refine .bind (twin.createSession stands (hs ▸ met.new.sessions 1)
      (ht ▸ met.new'.sessions 1)) fun _ _ _ _ h => .bind h.2.audit fun _ _ _ _ h' => ?_
    exact .bind (h'.2.chooseUpdates p) fun _ _ _ _ h' => .pure ⟨h.1 ▸ rfl, h'.2⟩

/-! Holders. -/

theorem createMember : Blind since db db' (createMember svc env by_ name) := by
  unfold Selfhost.createMember
  refine .need_same rfl fun normalized _ => .get (.need (met.members.insertNew
    (met.new.members 0) (met.new'.members 0) fun _ m h => Member.spent_of_isNone
    (Bool.and_eq_true_iff.mp h).1) fun a c agree => .set ?_)
  exact (met.setMembers agree.1).noted fun _ _ h => ⟨rfl, h⟩

theorem renameMember : Blind since db db' (renameMember svc env by_ id name) := by
  unfold Selfhost.renameMember
  refine .need_same rfl fun normalized _ => .get (.need_same
    (met.members.lookup fun _ => Member.spent_of_isNone) fun m _ => .refuse ?_ fun _ =>
      .set (met.setMembers (met.members.insert _ _)).audit)
  rw [met.members.find? fun _ m h => ?_]
  simp only [Bool.and_eq_true] at h
  exact Member.spent_of_isNone h.1.2

theorem deleteMember : Alike (fun _ s _ t => Twin since s t) (deleteMember svc env by_ id db)
      (deleteMember svc env by_ id db') := by
  unfold Selfhost.deleteMember
  refine .get (.need (met.members.change (fun _ => Member.spent_of_isNone) _)
    fun a c agree => .set (.run rfl rfl (.run rfl rfl ?_)))
  have twin := ((met.setMembers agree.1).revoked (env.clock 0) (.member id)).cancelled (env.clock 0)
    (.member id)
  exact .bind (twin.audit_counts (met.counted [] (by simp) _)) fun _ _ _ _ h => .pure h.2

theorem revokeMemberDevices :
    Alike (fun _ s _ t => Twin since s t) (revokeMemberDevices svc env by_ id db)
      (revokeMemberDevices svc env by_ id db') := by
  have gone (o : Option Member) : o.all (fun m => m.removedAt.isSome) =
      (o.filter fun m => m.removedAt.isNone).isNone := by
    cases o with
    | none => rfl
    | some m => cases h : m.removedAt <;> simp [h]
  unfold Selfhost.revokeMemberDevices
  refine .get (.refuse ?_ fun _ => .run rfl rfl ?_)
  · rw [gone, gone, met.members.lookup fun _ => Member.spent_of_isNone]
  · exact .bind ((met.revoked (env.clock 0) (.member id)).audit_counts
      (met.counted [] (by simp) _)) fun _ _ _ _ h => .pure h.2

theorem createPairing (input : PairingInput) : Blind since db db' (createPairing svc env by_ input) := by
  unfold Selfhost.createPairing
  refine .refuse Iff.rfl fun _ => .need_same rfl fun hint _ => .get (.need_same
    met.resolveHolder fun holderName _ => .run rfl rfl (.get ?_))
  have twin := met.cancelled (env.clock 0) input.holder
  refine .need (twin.pairings.insertFresh ((met.new.pairings 0).updateWhere _ fun _ => rfl)
    ((met.new'.pairings 0).updateWhere _ fun _ => rfl)) fun a c agree => .set ?_
  exact (twin.setPairings agree).noted fun _ _ h => ⟨rfl, h⟩

theorem cancelPairing : Blind since db db' (cancelPairing svc env by_ id) := by
  unfold Selfhost.cancelPairing
  refine .get (.need (met.pairings.change (fun p h => ?_) _) fun a c agree =>
    .set (met.setPairings agree.1).audit)
  simp only [Bool.and_eq_true, decide_eq_true_eq] at h
  exact PairingRow.not_spent (met.late 0) h.1 h.2

theorem redeemPairing (input : RedeemInput) : Blind since db db' (redeemPairing svc env input) := by
  unfold Selfhost.redeemPairing
  refine .refuse Iff.rfl fun _ => .need_same rfl fun name _ => .refuse Iff.rfl fun _ =>
    .get (.need_same (met.redeemable (met.late 0)) fun found hfound => .set ?_)
  -- the holder of a live pairing stands, so both stores read the same name for the device
  obtain ⟨hrow, live, -⟩ := redeemable_some hfound
  have stands := met.homed _ (.pairing hrow live)
  have twin := met.setPairings (met.pairings.updateWhere (fun k _ => k == found.1)
    (fun p => { p with usedAt := some (env.clock 0) }) fun _ _ _ _ => by
      simp [PairingRow.spent, PairingRow.live])
  refine .bind (twin.insertDevice (stands.same rfl rfl) (met.new.devices 0)
    (met.new'.devices 0)) fun _ s _ t h => .modify (.get ?_)
  obtain ⟨twin, stands⟩ := h
  have twin := twin.setPairings (twin.pairings.updateWhere (fun k _ => k == found.1)
    (fun p => { p with deviceID := some (env.id 0) }) fun _ _ h _ => h)
  refine twin.noted fun _ _ h => ⟨?_, h⟩
  rw [twin.readDevice (stands.same rfl rfl) rfl]

/-! Devices. -/

theorem heartbeat {m : DeviceMeta} : Blind since db db' (heartbeat svc env token m) := by
  unfold Selfhost.heartbeat
  refine .refuse Iff.rfl fun _ => .refuse Iff.rfl fun _ => .get (.need_same
    (met.activeDevice (met.late 0)) fun found hfound => .ok ⟨?_, met.setDevices (met.devices.insert _ _)⟩)
  obtain ⟨hd, hcond⟩ := Table.find?_some hfound
  simp only [Bool.and_eq_true] at hcond
  exact met.readDevice (met.homed _ (.device hd hcond.1.2)) rfl

/-- A device that is spent may be revoked in one store and be gone from the other. -/
theorem revokeDevice : Twin since (leaves (revokeDevice svc env by_ id) db)
    (leaves (revokeDevice svc env by_ id) db') := by
  cases hrow : (db.devices.lookup id).filter fun d => !d.spent since with
  | some d =>
    obtain ⟨hd, hleft⟩ := Option.filter_eq_some_iff.mp hrow
    have hleft : d.spent since = false := by simpa using hleft
    have live : d.live = true := by
      simp only [DeviceRow.spent, Bool.or_eq_false_iff, Bool.not_eq_false'] at hleft
      exact hleft.1
    have change (t : Table Bytes DeviceRow) (h : t.lookup id = some d) :
        t.change id (fun d => d.live) (DeviceRow.revoke (env.clock 0)) =
          some (t.insert id (d.revoke (env.clock 0))) := by
      rw [Table.change, h, Option.filter_some_pos live, Option.map_some]
    refine met.leaves_twin ?_
    unfold Selfhost.revokeDevice
    refine .get ?_
    rw [change _ hd, change _ (met.devices.lookup_some hd hleft)]
    exact .set ((met.setDevices (met.devices.insert _ _)).audit.mono fun _ _ _ _ h => h.2)
  | none =>
    have hrow' := (met.devices.lookup fun d h => by simpa using h).symm.trans hrow
    exact ((Twin.unseen hrow).trans met.toTwin).trans (Twin.unseen hrow').symm

theorem disconnect : Blind since db db' (disconnect svc env token) := by
  unfold Selfhost.disconnect
  exact .refuse Iff.rfl fun _ => .get (.need_same (met.activeDevice (met.late 0))
    fun found _ => .set (met.setDevices (met.devices.insert _ _)).audit)

/-! Rate limits. -/

theorem rateLimit {limit window : Int} : Blind since db db' (rateLimit env key limit window) := by
  unfold Selfhost.rateLimit
  refine .refuse Iff.rfl fun _ => .get ?_
  rw [met.next_row (met.late 0)]
  exact .ok ⟨rfl, met.setRateLimits (met.rateLimits.insert _ _)⟩

theorem resetRateLimit : Blind since db db' (resetRateLimit key) :=
  .ok ⟨rfl, met.setRateLimits (met.rateLimits.erase key)⟩

end Met

end Sesame.Selfhost
