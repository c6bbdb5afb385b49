import SesameServer.Selfhost.Twins

/- `Maintain` cannot be noticed. It deletes rows of every table, with three retentions and in
   a fixed order; what it deletes no call looks at any more.

   1. `maintain_commits` — it never meets a foreign key.
   2. `maintained_twin`, `Twin.maintained` — the store it leaves is a twin of the store it found,
      and it leaves twins of twins.
   3. `Twins.after` — every step of the system, taken in two stores that are twins, leaves
      twins: calls that are one transaction, and the parts of those that are not.
   4. `maintain_invisible` — hence after any steps the calls are answered alike with and
      without it. -/
namespace Sesame.Selfhost
open Outcome Table

variable {svc : Service} {env : Env} {since now : Int} {db db' : Db}

def Db.maintained (db : Db) (now : Int) : Db := (db.swept now).pruned (now - holderRetention)

theorem owners_maintained : (db.maintained now).owners = db.owners.deleteWhere fun id o =>
    (db.swept now).forgotten (now - holderRetention) (.owner id) o.removedAt := rfl

theorem members_maintained : (db.maintained now).members = db.members.deleteWhere fun id m =>
    (db.swept now).forgotten (now - holderRetention) (.member id) m.removedAt := rfl

theorem sessions_maintained : (db.maintained now).sessions =
    (db.sessions.deleteWhere fun _ s => decide (s.expiresAt ≤ now)).deleteWhere fun _ s =>
      (db.swept now).ownerGone (now - holderRetention) s.ownerID := rfl

theorem setupTokens_maintained : (db.maintained now).setupTokens =
    (db.setupTokens.deleteWhere fun _ t => decide (t.expiresAt ≤ now) || t.usedAt.isSome).deleteWhere
      fun _ t => t.purpose.owner.any ((db.swept now).ownerGone (now - holderRetention)) := rfl

theorem devices_maintained : (db.maintained now).devices =
    db.devices.deleteWhere fun _ d => d.expired (now - deviceRetention) := rfl

theorem pairings_maintained : (db.maintained now).pairings =
    db.pairings.deleteWhere fun _ p => db.stalePairing (now - pairingRetention) p := rfl

/-! It commits. -/

/-- No row that the last two statements delete is one that they would have to keep. -/
theorem forgotten_unreferred {ν : Type} (t : Table Bytes ν) (db : Db) (cutoff : Int)
    (holder : Bytes → Holder) (removedAt : ν → Option Int) :
    ¬(t.find? fun id v => db.forgotten cutoff (holder id) (removedAt v) &&
      db.referred (holder id)).isSome = true := by
  intro h
  obtain ⟨⟨id, v⟩, hfind⟩ := Option.isSome_iff_exists.mp h
  have := (Table.find?_some hfind).2
  simp only [Db.forgotten, Bool.and_eq_true, Bool.not_eq_true'] at this
  rw [this.1.2] at this
  cases this.2

theorem deleteOwners_commits (cutoff : Int) (db : Db) :
    ∃ n db', deleteOwners cutoff db = .ok n db' :=
  ⟨_, _, bind_ok.mpr ⟨db, db, rfl, bind_ok.mpr ⟨(), db,
    refuse_run (forgotten_unreferred _ db cutoff .owner Owner.removedAt), rfl⟩⟩⟩

theorem deleteMembers_commits (cutoff : Int) (db : Db) :
    ∃ n db', deleteMembers cutoff db = .ok n db' :=
  ⟨_, _, bind_ok.mpr ⟨db, db, rfl, bind_ok.mpr ⟨(), db,
    refuse_run (forgotten_unreferred _ db cutoff .member Member.removedAt), rfl⟩⟩⟩

theorem deleteDevices_commits (p : DeviceRow → Bool) (db : Db)
    (h : ∀ k q id d, db.pairings.lookup k = some q → q.deviceID = some id →
      db.devices.lookup id = some d → p d = false) : ∃ n db', deleteDevices p db = .ok n db' := by
  refine ⟨_, _, bind_ok.mpr ⟨db, db, rfl, bind_ok.mpr ⟨(), db, refuse_run fun hsome => ?_, rfl⟩⟩⟩
  obtain ⟨⟨k, q⟩, hfind⟩ := Option.isSome_iff_exists.mp hsome
  obtain ⟨hq, hany⟩ := Table.find?_some hfind
  obtain ⟨id, hid, hany⟩ := Option.any_eq_true _ _ |>.mp hany
  obtain ⟨d, hd, hp⟩ := Option.any_eq_true _ _ |>.mp hany
  rw [h k q id d hq hid hd] at hp
  cases hp

/-- **`Maintain` commits**: no pairing that is kept has a device that is not, and an owner or
    member that goes is not referred to. -/
theorem maintain_commits (env : Env) (db : Db) :
    ∃ report, maintain env db = .ok report (db.maintained (env.clock 0)) := by
  obtain ⟨report, db', h⟩ : ∃ report db', maintain env db = .ok report db' := by
    refine bind_ends ⟨db, db, rfl⟩ fun _ _ hget => bind_ends ⟨⟨⟩, _, rfl⟩ fun _ _ hset => ?_
    obtain ⟨rfl, rfl⟩ := get_ok.mp hget
    obtain rfl := set_ok.mp hset
    refine bind_ends (deleteDevices_commits _ _ fun k q id d hq hid hd => ?_) fun _ _ _ =>
      bind_ends ⟨⟨⟩, _, rfl⟩ fun _ _ _ => bind_ends (deleteOwners_commits _ _) fun _ _ _ =>
        bind_ends (deleteMembers_commits _ _) fun _ _ _ => ⟨_, _, rfl⟩
    exact not_expired_of_kept (Table.lookup_deleteWhere_some.mp hq).2 hid hd
  exact ⟨report, by rw [h, maintain_ok h]; rfl⟩

/-! It deletes what is spent. -/

variable {cutoff : Int} {α : Type}

theorem ownerGone_of_standing {id : Bytes} (h : db.Standing (.owner id)) :
    (db.swept now).ownerGone cutoff id = false := by
  obtain ⟨o, ho, hstanding⟩ := h
  have ho : (db.swept now).owners.lookup id = some o := ho
  simp [Db.ownerGone, ho, Db.forgotten, hstanding]

theorem DeviceRow.spent_of_expired {d : DeviceRow} (h : d.expired (now - deviceRetention) = true) :
    d.spent now = true := by
  simp only [DeviceRow.expired, Bool.or_eq_true, Option.any_eq_true, decide_eq_true_eq] at h
  simp only [DeviceRow.spent, DeviceRow.live, Bool.or_eq_true, Bool.not_eq_true',
    Option.isNone_eq_false_iff, decide_eq_true_eq]
  rcases h with ⟨at_, hat, -⟩ | h
  · exact .inl (by simp [hat])
  · exact .inr (by unfold deviceRetention at h; omega)

/-- Only a used pairing has a device, so one that is live is stale by its own time alone. -/
theorem stalePairing_of_live (linked : Linked db) {k : Bytes} {p : PairingRow}
    (hk : db.pairings.lookup k = some p) (live : p.live = true) :
    db.stalePairing cutoff p = decide (p.expiresAt < cutoff) := by
  simp only [PairingRow.live, Bool.and_eq_true, Option.isNone_iff_eq_none] at live
  have hdevice : p.deviceID = none := by
    cases hid : p.deviceID with
    | none => rfl
    | some id =>
      have := (linked.redeemed k p id hk hid).2
      rw [live.1] at this
      cases this
  simp [Db.stalePairing, PairingRow.endedAt, live, hdevice]

theorem not_forgotten_of_standing {holder : Holder} {removedAt : Option Int}
    (h : removedAt.isSome = false) : db.forgotten cutoff holder removedAt = false := by
  rw [Option.isSome_eq_false_iff, Option.isNone_iff_eq_none] at h
  rw [Db.forgotten, h, Option.any_none, Bool.false_and]

theorem spent_of_forgotten {holder : Holder} {removedAt : Option Int}
    (h : db.forgotten cutoff holder removedAt = true) : removedAt.isSome = true := by
  cases hsome : removedAt.isSome with
  | true => rfl
  | false =>
    rw [not_forgotten_of_standing hsome] at h
    cases h

/-- **The store that `Maintain` leaves is a twin of the store it found.** -/
theorem maintained_twin (linked : Linked db) (homed : Homed db) : Twin now (db.maintained now) db where
  owners := by
    rw [owners_maintained]
    exact .of_deleteWhere fun _ _ _ => spent_of_forgotten
  members := by
    rw [members_maintained]
    exact .of_deleteWhere fun _ _ _ => spent_of_forgotten
  setupTokens := by
    rw [setupTokens_maintained]
    refine Agree.trans (.of_deleteWhere fun k t hk h => ?_) (.of_deleteWhere fun k t _ h => ?_)
    · -- the owner of a token that is not used stands, and is not deleted
      obtain ⟨owner, own, hgone⟩ := (Option.any_eq_true _ _).mp h
      cases unused : t.usedAt with
      | some at_ => simp [SetupToken.spent, unused]
      | none =>
        rw [ownerGone_of_standing (homed _ (.token (Table.lookup_deleteWhere_some.mp hk).1 unused own))]
          at hgone
        cases hgone
    · rwa [SetupToken.spent, Bool.or_comm]
  sessions := by
    rw [sessions_maintained]
    refine Agree.trans (.of_deleteWhere fun k s hk h => ?_) (.of_deleteWhere fun _ _ _ h => h)
    rw [ownerGone_of_standing (homed _ (.session (Table.lookup_deleteWhere_some.mp hk).1))] at h
    cases h
  devices := by
    rw [devices_maintained]
    exact .of_deleteWhere fun _ _ _ h => DeviceRow.spent_of_expired h
  pairings := by
    rw [pairings_maintained]
    refine .of_deleteWhere fun k p hk h => ?_
    cases live : p.live with
    | false => simp [PairingRow.spent, live]
    | true =>
      rw [stalePairing_of_live linked hk live, decide_eq_true_eq, pairingRetention] at h
      simp only [PairingRow.spent, live, Bool.not_true, Bool.false_or, decide_eq_true_eq]
      omega
  rateLimits := .of_deleteWhere fun _ _ _ h => h

theorem Twin.maintained (twin : Twin since db db') (linked : Linked db) (linked' : Linked db')
    (homed : Homed db) (homed' : Homed db') :
    Twin since (db.maintained now) (db'.maintained now) where
  owners := by
    rw [owners_maintained, owners_maintained]
    refine twin.owners.deleteWhere fun _ _ _ _ h => ?_
    rw [not_forgotten_of_standing h, not_forgotten_of_standing h]
  members := by
    rw [members_maintained, members_maintained]
    refine twin.members.deleteWhere fun _ _ _ _ h => ?_
    rw [not_forgotten_of_standing h, not_forgotten_of_standing h]
  setupTokens := by
    rw [setupTokens_maintained, setupTokens_maintained]
    refine (twin.setupTokens.deleteWhere fun _ _ _ _ _ => rfl).deleteWhere fun k t hk hk' h => ?_
    simp only [SetupToken.spent, Bool.or_eq_false_iff, Option.isSome_eq_false_iff,
      Option.isNone_iff_eq_none] at h
    cases own : t.purpose.owner with
    | none => rfl
    | some owner =>
      rw [Option.any_some, Option.any_some,
        ownerGone_of_standing (homed _ (.token (Table.lookup_deleteWhere_some.mp hk).1 h.1 own)),
        ownerGone_of_standing (homed' _ (.token (Table.lookup_deleteWhere_some.mp hk').1 h.1 own))]
  sessions := by
    rw [sessions_maintained, sessions_maintained]
    refine (twin.sessions.deleteWhere fun _ _ _ _ _ => rfl).deleteWhere fun k s hk hk' _ => ?_
    rw [ownerGone_of_standing (homed _ (.session (Table.lookup_deleteWhere_some.mp hk).1)),
      ownerGone_of_standing (homed' _ (.session (Table.lookup_deleteWhere_some.mp hk').1))]
  devices := twin.devices.deleteWhere fun _ _ _ _ _ => rfl
  pairings := by
    rw [pairings_maintained, pairings_maintained]
    refine twin.pairings.deleteWhere fun k p hk hk' h => ?_
    have live : p.live = true := by
      simp only [PairingRow.spent, Bool.or_eq_false_iff, Bool.not_eq_false'] at h
      exact h.1
    rw [stalePairing_of_live linked hk live, stalePairing_of_live linked' hk' live]
  rateLimits := twin.rateLimits.deleteWhere fun _ _ _ _ _ => rfl

/-! Steps. -/

/-- What the invariants of a run say of the tables. -/
structure Sound (db : Db) : Prop where
  linked : Linked db
  homed : Homed db

theorem Effect.sound {shown : List Event} (effect : Effect svc env db shown db') (sound : Sound db) :
    Sound db' :=
  ⟨effect.linked sound.linked, effect.homed sound.homed⟩

theorem leaves_pure {β : Type} (x : Tx α) (f : α → β) (db : Db) :
    leaves (x >>= fun a => pure (f a)) db = leaves x db := by
  unfold leaves
  cases h : x db with
  | ok a after =>
    rw [bind_run h]
    rfl
  | error e after => rw [bind_error.mpr (.inl h)]

/-- **Every transaction leaves twins of twins.** -/
theorem Met.op (met : Met svc env since db db') (sound : Sound db) (sound' : Sound db') (op : Op) :
    Twin since (leaves (op.run svc env) db) (leaves (op.run svc env) db') := by
  -- what an operation shows is made of its reply, and leaves the tables alone
  have run {α : Type} {x : Tx α} {events : α → List Event} (h : Twin since (leaves x db) (leaves x db')) :
      Twin since (leaves (x >>= fun a => pure (events a)) db)
        (leaves (x >>= fun a => pure (events a)) db') := by
    rwa [leaves_pure, leaves_pure]
  have same {α : Type} {x : Tx α} {events : α → List Event} (h : Blind since db db' x) :
      Twin since (leaves (x >>= fun a => pure (events a)) db)
        (leaves (x >>= fun a => pure (events a)) db') :=
    run (met.leaves_twin (h.mono fun _ _ _ _ h => h.2))
  cases op with
  | startFirstSetup => exact same met.startFirstSetup
  | inviteOwner => exact same met.inviteOwner
  | resetOwner => exact run (met.leaves_twin met.resetOwner)
  | removeOwner => exact same met.removeOwner
  | setupDetails => exact same met.setupDetails
  | logout => exact same met.logout
  | createMember => exact same met.createMember
  | renameMember => exact same met.renameMember
  | deleteMember => exact run (met.leaves_twin met.deleteMember)
  | revokeMemberDevices => exact run (met.leaves_twin met.revokeMemberDevices)
  | createPairing => exact same (met.createPairing _)
  | cancelPairing => exact same met.cancelPairing
  | redeemPairing => exact same (met.redeemPairing _)
  | revokeDevice => exact run met.revokeDevice
  | heartbeat => exact same met.heartbeat
  | disconnect => exact same met.disconnect
  | rateLimit => exact same met.rateLimit
  | resetRateLimit => exact same met.resetRateLimit
  | maintain =>
    obtain ⟨report, hrun⟩ := maintain_commits env db
    obtain ⟨report', hrun'⟩ := maintain_commits env db'
    refine run ?_
    rw [leaves, leaves, hrun, hrun']
    exact met.maintained sound.linked sound'.linked sound.homed sound'.homed

/-! The system. -/

/-- After a turn; one that fails leaves the system as it was. -/
def System.after (svc : Service) (s : System) (turn : Turn) : System :=
  (turn.play svc s).elim s Prod.snd

/-- What the turn reads from the clock and from `crypto/rand`. -/
def Turn.reads : Turn → Option Env
  | .op env _ | .readToken env _ | .prepareSetup env _ | .commitSetup env _ | .readLogin env _
  | .commitLogin env _ | .readSession env _ | .readStepUp env _ | .commitStepUp env _ => some env
  | .giveUp _ => none

/-- The turn is taken at `since` or later, and what it draws is new. -/
def Turn.Due (svc : Service) (since : Int) (turn : Turn) (s : System) : Prop :=
  ∀ env, turn.reads = some env → (∀ n, since ≤ env.clock n) ∧ s.Draws env ∧ New svc env s.db

/-- Two systems with the same calls under way, over twins. -/
structure Twins (since : Int) (s s' : System) : Prop where
  calls : s.calls = s'.calls
  next : s.next = s'.next
  hashes : s.hashes = s'.hashes
  db : Twin since s.db s'.db

variable {s s' : System} {n : Nat}

theorem Twins.begin (twins : Twins since s s') (call : Pending) :
    Twins since (s.begin call) (s'.begin call) := by
  refine { twins with calls := ?_, next := ?_ }
  · rw [System.begin, System.begin, twins.calls, twins.next]
  · rw [System.begin, System.begin, twins.next]

theorem Twins.goOn (twins : Twins since s s') (n : Nat) (call : Pending) :
    Twins since (s.goOn n call) (s'.goOn n call) :=
  { twins with calls := by rw [System.goOn, System.goOn, twins.calls] }

theorem Twins.finish (twins : Twins since s s') (n : Nat) :
    Twins since (s.finish n) (s'.finish n) :=
  { twins with calls := by rw [System.finish, System.finish, twins.calls] }

theorem Twins.write (twins : Twins since s s') (twin : Twin since db db') :
    Twins since (s.write env db) (s'.write env db') :=
  ⟨twins.calls, twins.next, twins.hashes, twin⟩

/-- The transaction of a call that has read: it ends the call in both, or in neither. -/
theorem Twins.commit {x : Tx α} (twins : Twins since s s') (draws : s.Draws env)
    (draws' : s'.Draws env) (h : Alike (Same (Twin since)) (x s.db) (x s'.db)) (n : Nat)
    (show_ : α × System → List Event) :
    Twins since (((s.commit env x).map fun r => (show_ r, r.2.finish n)).elim s Prod.snd)
      (((s'.commit env x).map fun r => (show_ r, r.2.finish n)).elim s' Prod.snd) := by
  unfold System.commit
  rw [if_pos draws, if_pos draws']
  generalize x s.db = rx at h
  generalize x s'.db = ry at h
  cases h with
  | ok related => exact (twins.write related.2).finish n
  | error => exact twins

theorem Twins.op (twins : Twins since s s') (sound : Sound s.db) (sound' : Sound s'.db)
    (met : Met svc env since s.db s'.db) (draws : s.Draws env) (draws' : s'.Draws env) (what : Op) :
    Twins since (s.after svc (.op env what)) (s'.after svc (.op env what)) := by
  have run (s : System) (draws : s.Draws env) : (s.after svc (.op env what)).calls = s.calls ∧
      (s.after svc (.op env what)).next = s.next ∧ (s.after svc (.op env what)).hashes = s.hashes ∧
      (s.after svc (.op env what)).db = leaves (what.run svc env) s.db := by
    dsimp only [System.after, Turn.play, System.commit, leaves]
    rw [if_pos draws]
    cases what.run svc env s.db <;> exact ⟨rfl, rfl, rfl, rfl⟩
  obtain ⟨hcalls, hnext, hhashes, hdb⟩ := run s draws
  obtain ⟨hcalls', hnext', hhashes', hdb'⟩ := run s' draws'
  exact ⟨by rw [hcalls, hcalls', twins.calls], by rw [hnext, hnext', twins.next],
    by rw [hhashes, hhashes', twins.hashes],
    by rw [hdb, hdb']; exact met.op sound sound' what⟩

/-- **Every step leaves twins of twins.** -/
theorem Twins.after (twins : Twins since s s') (sound : Sound s.db) (sound' : Sound s'.db)
    {turn : Turn} (due : turn.Due svc since s) (due' : turn.Due svc since s') :
    Twins since (s.after svc turn) (s'.after svc turn) := by
  have meet {env : Env} (h : turn.reads = some env) :
      Met svc env since s.db s'.db ∧ s.Draws env ∧ s'.Draws env := by
    obtain ⟨late, draws, new⟩ := due env h
    obtain ⟨-, draws', new'⟩ := due' env h
    exact ⟨{ twins.db with homed := sound.homed, late, new, new' }, draws, draws'⟩
  cases turn with
  | op env what =>
    obtain ⟨met, draws, draws'⟩ := meet rfl
    exact twins.op sound sound' met draws draws' what
  | readToken env input =>
    dsimp only [System.after, Turn.play]
    rw [twins.db.findToken sound.homed ((due env rfl).1 0)]
    split
    · exact twins.begin _
    · exact twins
  | prepareSetup env n =>
    dsimp only [System.after, Turn.play]
    rw [twins.calls]
    split
    · next input found call =>
      rw [twins.db.checkFirst, twins.hashes]
      split
      · split
        · exact twins
        · exact { twins.goOn n _ with hashes := rfl }
      · exact twins
    · exact twins
  | commitSetup env n =>
    obtain ⟨met, draws, draws'⟩ := meet rfl
    dsimp only [System.after, Turn.play]
    rw [twins.calls]
    split
    · exact twins.commit draws draws' (met.commitSetup _) n _
    · exact twins
  | readLogin env input =>
    dsimp only [System.after, Turn.play]
    rw [twins.db.prepareLogin, twins.next]
    split
    · exact twins.begin _
    · exact twins
  | commitLogin env n =>
    obtain ⟨met, draws, draws'⟩ := meet rfl
    dsimp only [System.after, Turn.play]
    rw [twins.calls]
    split
    · exact twins.commit draws draws' (met.commitLogin _) n _
    · exact twins
  | readSession env input =>
    dsimp only [System.after, Turn.play]
    rw [twins.db.session ((due env rfl).1 0)]
    split
    · exact twins.begin _
    · exact twins
  | readStepUp env n =>
    dsimp only [System.after, Turn.play]
    rw [twins.calls]
    split
    · rw [twins.db.prepareStepUp]
      split
      · exact twins.goOn n _
      · exact twins
    · exact twins
  | commitStepUp env n =>
    obtain ⟨met, draws, draws'⟩ := meet rfl
    dsimp only [System.after, Turn.play]
    rw [twins.calls]
    split
    · exact twins.commit draws draws' (met.commitStepUp _) n _
    · exact twins
  | giveUp n => exact twins.finish n

theorem Sound.after (sound : Sound s.db) (turn : Turn) : Sound (s.after svc turn).db := by
  unfold System.after
  cases h : turn.play svc s with
  | none => exact sound
  | some played =>
    rcases (Turn.play_next h).effect with ⟨hdb, -, -⟩ | ⟨env, -, -, effect⟩
    · rw [Option.elim_some, hdb]
      exact sound
    · exact effect.sound sound

/-- The same turns in two systems, all of them at `since` or later. -/
inductive Alongside (svc : Service) (since : Int) (s₀ s₀' : System) : System → System → Prop
  | start : Alongside svc since s₀ s₀' s₀ s₀'
  | turn {s s' : System} {turn : Turn} (before : Alongside svc since s₀ s₀' s s')
      (due : turn.Due svc since s) (due' : turn.Due svc since s') :
      Alongside svc since s₀ s₀' (s.after svc turn) (s'.after svc turn)

theorem Alongside.twins {s₀ s₀' : System} (along : Alongside svc since s₀ s₀' s s')
    (first : Twins since s₀ s₀' ∧ Sound s₀.db ∧ Sound s₀'.db) :
    Twins since s s' ∧ Sound s.db ∧ Sound s'.db := by
  induction along with
  | start => exact first
  | turn _ due due' ih =>
    obtain ⟨twins, sound, sound'⟩ := ih
    exact ⟨twins.after sound sound' due due', sound.after _, sound'.after _⟩

/-! Replies. -/

/-- What a call whose transaction this is returns. -/
def reply {α : Type} (x : Tx α) (db : Db) : Except Err α := (write x db).map Prod.fst

theorem reply_alike {x : Tx α} (h : Alike (Same (Twin since)) (x db) (x db')) :
    reply x db = reply x db' := by
  unfold reply write
  generalize x db = rx at h
  generalize x db' = ry at h
  cases h with
  | ok related => rw [related.1]; rfl
  | error => rfl

/-- **`Maintain` cannot be noticed.** In every state of every run and at any time it commits, and
    leaves no reference to a row that is gone. Let the same turns follow in the store as it
    leaves it and in the store as it was, any number and at that time or later, so that what
    they draw from `crypto/rand` is new. Then each of the calls returns the same in both: for
    `Login`, which is two steps, each step does. -/
theorem maintain_invisible {es : List Event} {s : System} (run : Run svc es s) (env : Env) :
    ∃ report db', maintain env s.db = .ok report db' ∧ Linked db' ∧
    ∀ m u, Alongside svc (env.clock 0) { s with db := db' } s m u →
      (∀ now, env.clock 0 ≤ now → ∀ token,
        authenticateDevice svc now token m.db = authenticateDevice svc now token u.db ∧
        session svc now token m.db = session svc now token u.db ∧
        findSetupToken svc now token m.db = findSetupToken svc now token u.db) ∧
      (∀ later input, prepareLogin svc later input m.db = prepareLogin svc later input u.db) ∧
      ∀ later : Env, (∀ n, env.clock 0 ≤ later.clock n) → New svc later m.db → New svc later u.db →
        (∀ prepared, reply (commitLogin svc later prepared) m.db =
          reply (commitLogin svc later prepared) u.db) ∧
        (∀ input, reply (redeemPairing svc later input) m.db =
          reply (redeemPairing svc later input) u.db) ∧
        ∀ key limit window, reply (rateLimit later key limit window) m.db =
          reply (rateLimit later key limit window) u.db := by
  obtain ⟨report, hcommits⟩ := maintain_commits env s.db
  have sound : Sound s.db := ⟨run.linked, run.homed⟩
  have effect : Effect svc env s.db [] (s.db.maintained (env.clock 0)) := .maintained
  have sound' := effect.sound sound
  have first : Twins (env.clock 0) { s with db := s.db.maintained (env.clock 0) } s :=
    ⟨rfl, rfl, rfl, maintained_twin sound.linked sound.homed⟩
  refine ⟨report, _, hcommits, sound'.linked, fun m u along => ?_⟩
  obtain ⟨twins, soundm, -⟩ := along.twins ⟨first, sound', sound⟩
  have twin := twins.db
  refine ⟨fun now late token => ?_, fun later input => twin.prepareLogin input,
    fun later late newm newu => ?_⟩
  · exact ⟨twin.authenticateDevice soundm.homed late, twin.session late,
      twin.findSetupToken soundm.homed late⟩
  · have met : Met svc later (env.clock 0) m.db u.db :=
      { twin with homed := soundm.homed, late, new := newm, new' := newu }
    exact ⟨fun prepared => reply_alike (met.commitLogin prepared),
      fun input => reply_alike (met.redeemPairing input), fun _ _ _ => reply_alike met.rateLimit⟩

namespace Demo

/-- An owner is invited and removed, and a device is connected. -/
def beforeUpkeep : List Event × System :=
  playAll server (opening ++ connect 5 ++ [.op (moment 7) (.inviteOwner SystemActor (utf8 "bob")),
    .op (moment 8) (.removeOwner SystemActor ((moment 7).id 0))]) ([], .init)

/-- Forty days later, and `n` half minutes after that. -/
def afterwards (n : Nat) : Env :=
  { moment (9 + n) with clock := fun _ => 3000000 + 40 * 24 * 3600 + 30 * n }

def hear (s : System) : System :=
  s.after server (.op (afterwards 1) (.heartbeat ((moment 6).token 0) ⟨[], [], [], [], 2, true, true⟩))

def attempt (s : System) : System :=
  (hear s).after server (.op (afterwards 2) (.rateLimit adaID 5 120000000000))

/-- The store as `Maintain` leaves it. -/
def kept : System := { beforeUpkeep.2 with db := beforeUpkeep.2.db.maintained ((afterwards 0).clock 0) }

theorem afterwards_late (n k : Nat) : (afterwards 0).clock 0 ≤ (afterwards n).clock k := by
  simp [afterwards]

theorem due_op {n : Nat} {what : Op} {s : System} (draws : s.Draws (afterwards n))
    (new : New server (afterwards n) s.db) :
    Turn.Due server ((afterwards 0).clock 0) (.op (afterwards n) what) s := by
  rintro env ⟨⟩
  exact ⟨afterwards_late n, draws, new⟩

/-- The removed owner is deleted with much else. After two more steps the device is accepted and
    the next attempt counted as they would have been. -/
theorem upkeep_unnoticed : (∃ report, maintain (afterwards 0) beforeUpkeep.2.db = .ok report kept.db ∧
      (report.holders, report.pairings, report.setupTokens) = (1, 1, 1)) ∧
    (authenticateDevice server ((afterwards 3).clock 0) ((moment 6).token 0)
      (attempt beforeUpkeep.2).db).toOption.isSome = true ∧
    authenticateDevice server ((afterwards 3).clock 0) ((moment 6).token 0) (attempt kept).db =
      authenticateDevice server ((afterwards 3).clock 0) ((moment 6).token 0)
        (attempt beforeUpkeep.2).db ∧
    reply (rateLimit (afterwards 3) adaID 5 120000000000) (attempt kept).db =
      reply (rateLimit (afterwards 3) adaID 5 120000000000) (attempt beforeUpkeep.2).db := by
  have run : Run server beforeUpkeep.1 beforeUpkeep.2 := playAll_init _
  obtain ⟨report, db', hcommits, -, hsame⟩ := maintain_invisible run (afterwards 0)
  obtain rfl : kept.db = db' := (maintain_ok hcommits).symm
  have along : Alongside server ((afterwards 0).clock 0) kept beforeUpkeep.2 (attempt kept)
      (attempt beforeUpkeep.2) :=
    .turn (.turn .start (due_op (by decide +kernel) (by decide +kernel))
      (due_op (by decide +kernel) (by decide +kernel)))
      (due_op (by decide +kernel) (by decide +kernel)) (due_op (by decide +kernel) (by decide +kernel))
  obtain ⟨reads, -, writes⟩ := hsame _ _ along
  refine ⟨⟨report, hcommits, ?_⟩, by decide +kernel, (reads _ (afterwards_late 3 0) _).1,
    (writes (afterwards 3) (afterwards_late 3) (by decide +kernel) (by decide +kernel)).2.2 _ _ _⟩
  have hreport : ((write (maintain (afterwards 0)) beforeUpkeep.2.db).toOption.map fun r =>
      (r.1.holders, r.1.pairings, r.1.setupTokens)) = some (1, 1, 1) := by decide +kernel
  unfold write at hreport
  rw [hcommits] at hreport
  exact Option.some.inj hreport

end Demo

end Sesame.Selfhost
