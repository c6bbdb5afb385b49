import SesameServer.Selfhost.System

/- Whoever is removed or reset is cut off. `AuthenticateDevice` and `RedeemPairing` do not
   look at the holder of what they find, so that its holder is there, is not removed and has
   not been reset since is an invariant of all the other calls.

   1. `Effect.live_device`, `Effect.live_pairing` — a device or pairing that is live after a
      step was so before it, and its holder was not reset, or it is new.
   2. `Effect.standing` — a step that takes a holder away leaves nothing that is theirs.
   3. `Run.homed` — hence whoever has something in use stands, in every run.
   4. `live_stands` — what is accepted, and that it was made after the last reset. -/
namespace Sesame.Selfhost
open Outcome History

/-- The holder's row exists and is not removed. -/
def Db.Standing (db : Db) : Holder → Prop
  | .owner id => ∃ row, db.owners.lookup id = some row ∧ row.removedAt = none
  | .member id => ∃ row, db.members.lookup id = some row ∧ row.removedAt = none

/-- The event is not a reset of the holder. -/
def Event.Spares (holder : Holder) (e : Event) : Prop := ∀ owner, holder = .owner owner → e ≠ .reset owner

variable {svc : Service} {env : Env} {db db' : Db} {shown : List Event}

/-! Live rows. -/

variable {now : Int} {holder : Holder} {k : Bytes} {d : DeviceRow} {p : PairingRow}

theorem revokedOf_live {devices : Table Bytes DeviceRow}
    (h : (revokedOf now holder devices).lookup k = some d) (live : d.live = true) :
    devices.lookup k = some d ∧ d.holder ≠ holder := by
  obtain ⟨d₀, hd₀, hif⟩ := Table.lookup_updateWhere_some.mp h
  split at hif
  · rw [← hif] at live
    cases live
  · next hnot =>
    subst hif
    exact ⟨hd₀, fun he => hnot (by simp [he, live])⟩

theorem cancelledOf_live {pairings : Table Bytes PairingRow}
    (h : (cancelledOf now holder pairings).lookup k = some p)
    (live : p.live = true) : pairings.lookup k = some p ∧ p.holder ≠ holder := by
  obtain ⟨p₀, hp₀, hif⟩ := Table.lookup_updateWhere_some.mp h
  split at hif
  · rw [← hif] at live
    simp [PairingRow.live] at live
  · next hnot =>
    subst hif
    exact ⟨hp₀, fun he => hnot (by simp [he, live])⟩

theorem Cancelled.live {pairings pairings' : Table Bytes PairingRow} (h : Cancelled pairings pairings')
    (hk : pairings'.lookup k = some p) (live : p.live = true) : pairings.lookup k = some p := by
  rcases h k with same | ⟨p₀, now, -, hcancelled⟩
  · rw [← same, hk]
  · rw [hcancelled] at hk
    cases hk
    simp [PairingRow.live] at live

variable {id : Bytes} {es : List Event} {s : System}

theorem spares_reset {t : Bytes} {purpose : Purpose} (h : holder ≠ .owner id) :
    ∀ e ∈ [Event.reset id, .issued t purpose], e.Spares holder := by
  simp only [List.mem_cons, List.not_mem_nil, or_false, forall_eq_or_imp, forall_eq]
  exact ⟨fun owner hown he => h (hown.trans (by cases he; rfl)), fun _ _ he => by cases he⟩

/-- A live device was live before and its holder is spared, or it comes from a live pairing. -/
theorem Effect.live_device (effect : Effect svc env db shown db')
    (hk : db'.devices.lookup k = some d) (live : d.live = true) :
    ((∃ d₀, db.devices.lookup k = some d₀ ∧ d₀.live = true ∧ d₀.holder = d.holder) ∧
        ∀ e ∈ shown, e.Spares d.holder) ∨
      (shown = [.connected k d.holder] ∧ ∃ q p, db.pairings.lookup q = some p ∧
        p.live = true ∧ p.holder = d.holder) := by
  cases effect with
  | reset =>
    obtain ⟨hd, hne⟩ := revokedOf_live hk live
    exact .inl ⟨⟨d, hd, live, rfl⟩, spares_reset hne⟩
  | removed => exact .inl ⟨⟨d, (revokedOf_live hk live).1, live, rfl⟩, by simp [Event.Spares]⟩
  | memberRemoved => exact .inl ⟨⟨d, (revokedOf_live hk live).1, live, rfl⟩, by simp⟩
  | quiet dimmed =>
    obtain ⟨d₀, hd₀, own, still⟩ := dimmed.before hk
    exact .inl ⟨⟨d₀, hd₀, still live, own.symm⟩, by simp⟩
  | connected lookup plive own =>
    rcases Table.lookup_insert_some.mp hk with ⟨rfl, rfl⟩ | ⟨-, hk⟩
    · exact .inr ⟨by rw [own], _, _, lookup, plive, own.symm⟩
    · exact .inl ⟨⟨d, hk, live, rfl⟩, by simp [Event.Spares]⟩
  | maintained => exact .inl ⟨⟨d, (Table.lookup_deleteWhere_some.mp hk).1, live, rfl⟩, by simp⟩
  | first | invited | shown | detailed | completed | accepted | memberAdded | memberRenamed | paired =>
    exact .inl ⟨⟨d, hk, live, rfl⟩, by simp [Event.Spares]⟩

/-- A live pairing was live before and its holder is spared, or it is made for a holder that
    may have one. -/
theorem Effect.live_pairing (effect : Effect svc env db shown db')
    (hk : db'.pairings.lookup k = some p) (live : p.live = true) :
    (db.pairings.lookup k = some p ∧ ∀ e ∈ shown, e.Spares p.holder) ∨
      (shown = [.paired k p.holder] ∧ ∃ name, db.resolveHolder p.holder = some name) := by
  cases effect with
  | reset =>
    obtain ⟨hp, hne⟩ := cancelledOf_live hk live
    exact .inl ⟨hp, spares_reset hne⟩
  | removed => exact .inl ⟨(cancelledOf_live hk live).1, by simp [Event.Spares]⟩
  | memberRemoved => exact .inl ⟨(cancelledOf_live hk live).1, by simp⟩
  | quiet _ cancelled => exact .inl ⟨cancelled.live hk live, by simp⟩
  | paired resolved own =>
    rcases Table.lookup_insert_some.mp hk with ⟨rfl, rfl⟩ | ⟨-, hk⟩
    · exact .inr ⟨by rw [own], _, own ▸ resolved⟩
    · exact .inl ⟨(cancelledOf_live hk live).1, by simp [Event.Spares]⟩
  | connected _ _ _ _ redeemed =>
    rw [show _ = _ from redeemed k] at hk
    obtain ⟨p₀, hp₀, hif⟩ := Option.map_eq_some_iff.mp hk
    split at hif
    · rw [← hif] at live
      simp [PairingRow.live, PairingRow.redeem] at live
    · exact .inl ⟨hif ▸ hp₀, by simp [Event.Spares]⟩
  | maintained => exact .inl ⟨(Table.lookup_deleteWhere_some.mp hk).1, by simp⟩
  | first | invited | shown | detailed | completed | accepted | memberAdded | memberRenamed =>
    exact .inl ⟨hk, by simp [Event.Spares]⟩

/-! Holders. -/

theorem standing_of_resolve {name : Bytes}
    (h : db.resolveHolder holder = some name) : db.Standing holder := by
  cases holder with
  | owner id =>
    obtain ⟨row, hrow, -⟩ := Option.map_eq_some_iff.mp h
    obtain ⟨hrow, hactive⟩ := Option.filter_eq_some_iff.mp hrow
    simp only [Owner.active, Bool.and_eq_true, Option.isNone_iff_eq_none] at hactive
    exact ⟨row, hrow, hactive.1⟩
  | member id =>
    obtain ⟨row, hrow, -⟩ := Option.map_eq_some_iff.mp h
    obtain ⟨hrow, hstanding⟩ := Option.filter_eq_some_iff.mp hrow
    exact ⟨row, hrow, by simpa using hstanding⟩

/-- Something is the holder's: a live device or pairing, a session, or an unused setup token. -/
inductive Db.InUse (db : Db) : Holder → Prop
  | device {k : Bytes} {d : DeviceRow} (row : db.devices.lookup k = some d) (live : d.live = true) :
      InUse db d.holder
  | pairing {k : Bytes} {p : PairingRow} (row : db.pairings.lookup k = some p) (live : p.live = true) :
      InUse db p.holder
  | session {k : Bytes} {s : SessionRow} (row : db.sessions.lookup k = some s) :
      InUse db (.owner s.ownerID)
  | token {k owner : Bytes} {t : SetupToken} (row : db.setupTokens.lookup k = some t)
      (unused : t.usedAt = none) (own : t.purpose.owner = some owner) : InUse db (.owner owner)

/-- An owner's row that is written and is not removed stands, and takes no standing away. -/
theorem standing_insert_owner {row : Owner} (howners : db'.owners = db.owners.insert id row)
    (hmembers : db'.members = db.members) (standing : row.removedAt = none) (h : db.Standing holder) :
    db'.Standing holder := by
  cases holder with
  | member id => simpa only [Db.Standing, hmembers] using h
  | owner k =>
    obtain ⟨o, ho, hstanding⟩ := h
    simp only [Db.Standing, howners, Table.lookup_insert_eq]
    split
    · exact ⟨_, rfl, standing⟩
    · exact ⟨o, ho, hstanding⟩

/-- Nothing live is the holder's once their devices are revoked and their pairings cancelled. -/
theorem ne_of_revoked {gone : Holder} (hdevices : db'.devices = revokedOf now gone db.devices)
    (hpairings : db'.pairings = cancelledOf now gone db.pairings) (inUse : db'.InUse holder)
    (hsessions : ∀ k s, db'.sessions.lookup k = some s → .owner s.ownerID ≠ gone)
    (htokens : ∀ k t owner, db'.setupTokens.lookup k = some t → t.usedAt = none →
      t.purpose.owner = some owner → .owner owner ≠ gone) : holder ≠ gone := by
  cases inUse with
  | device row live => exact (revokedOf_live (hdevices ▸ row) live).2
  | pairing row live => exact (cancelledOf_live (hpairings ▸ row) live).2
  | session row => exact hsessions _ _ row
  | token row unused own => exact htokens _ _ _ row unused own

theorem dropAccess_sessions (k : Bytes) (s : SessionRow)
    (h : (dropAccess db id).sessions.lookup k = some s) : Holder.owner s.ownerID ≠ .owner id := by
  have := (Table.lookup_deleteWhere_some.mp h).2
  simpa using this

theorem dropAccess_tokens (k : Bytes) (t : SetupToken) (owner : Bytes)
    (h : (dropAccess db id).setupTokens.lookup k = some t) (unused : t.usedAt = none)
    (own : t.purpose.owner = some owner) : Holder.owner owner ≠ .owner id := by
  have := (Table.lookup_deleteWhere_some.mp h).2
  simpa [unused, own] using this

/-- `Maintain` deletes only holders that were removed. -/
theorem standing_maintained {cutoff : Int} (h : db.Standing holder) :
    ((db.swept now).pruned cutoff).Standing holder := by
  cases holder with
  | owner id | member id =>
    obtain ⟨row, hrow, hstanding⟩ := h
    exact ⟨row, Table.lookup_deleteWhere_some.mpr ⟨hrow, by simp [Db.forgotten, hstanding]⟩, hstanding⟩

/-- A holder that stood still does, unless nothing live is theirs. -/
theorem Effect.standing (effect : Effect svc env db shown db')
    (h : db.Standing holder) (inUse : db'.InUse holder) : db'.Standing holder := by
  cases effect with
  | invited => exact standing_insert_owner rfl rfl rfl h
  | reset lookup standing =>
    cases holder with
    | member id => exact h
    | owner k =>
      obtain ⟨o, ho, hstanding⟩ := h
      refine ⟨_, Table.lookup_updateWhere_some.mpr ⟨o, ho, rfl⟩, ?_⟩
      split <;> exact hstanding
  | @removed id row log lookup =>
    cases holder with
    | member id => exact h
    | owner k =>
      have hne : Holder.owner k ≠ .owner id :=
        ne_of_revoked rfl rfl inUse dropAccess_sessions dropAccess_tokens
      obtain ⟨o, ho, hstanding⟩ := h
      exact ⟨o, Table.lookup_updateWhere_some.mpr ⟨o, ho, if_neg (by simpa using hne)⟩, hstanding⟩
  | completed _ _ installed =>
    cases installed with
    | first _ _ _ _ eq => exact standing_insert_owner eq rfl rfl h
    | pending _ _ removed _ eq => exact standing_insert_owner eq rfl removed h
  | accepted _ _ _ standing => exact standing_insert_owner rfl rfl standing h
  | memberAdded standing | memberRenamed _ standing =>
    cases holder with
    | owner id => exact h
    | member k =>
      obtain ⟨m, hm, hstanding⟩ := h
      simp only [Db.Standing, Table.lookup_insert_eq]
      split
      · exact ⟨_, rfl, standing⟩
      · exact ⟨m, hm, hstanding⟩
  | @memberRemoved id row log lookup =>
    cases holder with
    | owner id => exact h
    | member k =>
      have hne : Holder.member k ≠ .member id :=
        ne_of_revoked rfl rfl inUse (by simp) (by simp)
      obtain ⟨m, hm, hstanding⟩ := h
      exact ⟨m, Table.lookup_insert_some.mpr (.inr ⟨by simpa using hne, hm⟩), hstanding⟩
  | maintained => exact standing_maintained h
  | first | shown | detailed | quiet | paired | connected => exact h

/-! The invariants. -/

def Homed (db : Db) : Prop := ∀ holder, db.InUse holder → db.Standing holder

theorem Installed.standing {p : PreparedSetup} {owners : Table Bytes Owner} {owner : Bytes}
    (installed : Installed env p db owners owner) (howners : db'.owners = owners) :
    db'.Standing (.owner owner) := by
  simp only [Db.Standing, howners]
  cases installed with
  | first _ _ _ _ eq =>
    rw [eq]
    exact ⟨_, AList.lookup_insert _, rfl⟩
  | pending _ _ removed _ eq =>
    rw [eq]
    exact ⟨_, AList.lookup_insert _, removed⟩

/-- Who has a session was standing, or is now. -/
theorem Effect.session (effect : Effect svc env db shown db') (homed : Homed db) {s : SessionRow}
    (row : db'.sessions.lookup k = some s) :
    db.Standing (.owner s.ownerID) ∨ db'.Standing (.owner s.ownerID) := by
  have old {k : Bytes} {s : SessionRow} (h : db.sessions.lookup k = some s) :
      db.Standing (.owner s.ownerID) := homed _ (.session h)
  cases effect with
  | reset | removed => exact .inl (old (Table.lookup_deleteWhere_some.mp row).1)
  | completed _ _ installed own =>
    rcases Table.lookup_insert_some.mp row with ⟨-, rfl⟩ | ⟨-, row⟩
    · exact .inr (own ▸ installed.standing rfl)
    · exact .inl (old row)
  | accepted lookup _ _ standing own =>
    rcases own k s row with howner | ⟨s₀, row₀, howner⟩
    · exact .inl (howner ▸ ⟨_, lookup, standing⟩)
    · exact .inl (howner ▸ old row₀)
  | quiet _ _ ended => exact .inl (old (ended k s row))
  | maintained =>
    exact .inl (old (Table.lookup_deleteWhere_some.mp (Table.lookup_deleteWhere_some.mp row).1).1)
  | first | invited | shown | detailed | memberAdded | memberRenamed | memberRemoved | paired
  | connected => exact .inl (old row)

/-- So was or is whoever a setup token is for that is not used. -/
theorem Effect.unused (effect : Effect svc env db shown db') (homed : Homed db) {t : SetupToken}
    {owner : Bytes} (row : db'.setupTokens.lookup k = some t) (unused : t.usedAt = none)
    (own : t.purpose.owner = some owner) : db.Standing (.owner owner) ∨ db'.Standing (.owner owner) := by
  have old {t : SetupToken} (h : db.setupTokens.lookup k = some t) (unused : t.usedAt = none)
      (own : t.purpose.owner = some owner) : db.Standing (.owner owner) := homed _ (.token h unused own)
  cases effect with
  | first =>
    rcases Table.lookup_insert_some.mp row with ⟨-, rfl⟩ | ⟨-, row⟩
    · cases own
    · exact .inl (old (Table.lookup_deleteWhere_some.mp row).1 unused own)
  | invited =>
    rcases Table.lookup_insert_some.mp row with ⟨-, rfl⟩ | ⟨-, row⟩
    · cases own
      exact .inr ⟨_, AList.lookup_insert _, rfl⟩
    · exact .inl (old row unused own)
  | reset lookup standing =>
    rcases Table.lookup_insert_some.mp row with ⟨-, rfl⟩ | ⟨-, row⟩
    · cases own
      exact .inl ⟨_, lookup, standing⟩
    · exact .inl (old (Table.lookup_deleteWhere_some.mp row).1 unused own)
  | removed => exact .inl (old (Table.lookup_deleteWhere_some.mp row).1 unused own)
  | detailed =>
    obtain ⟨t₀, row₀, hif⟩ := Table.lookup_updateWhere_some.mp row
    split at hif <;> subst hif <;> exact .inl (old row₀ unused own)
  | completed =>
    rcases Table.lookup_insert_some.mp row with ⟨-, rfl⟩ | ⟨-, row⟩
    · cases unused
    · exact .inl (old row unused own)
  | maintained =>
    have row := (Table.lookup_deleteWhere_some.mp (Table.lookup_deleteWhere_some.mp row).1).1
    exact .inl (old row unused own)
  | shown | accepted | quiet | memberAdded | memberRenamed | memberRemoved | paired | connected =>
    exact .inl (old row unused own)

theorem Effect.homed (effect : Effect svc env db shown db') (homed : Homed db) : Homed db' := by
  intro holder inUse
  have was : db.Standing holder ∨ db'.Standing holder := by
    cases inUse with
    | device row live =>
      rcases effect.live_device row live with ⟨⟨d, hd, live, own⟩, -⟩ | ⟨-, q, p, hp, live, own⟩
      · exact .inl (own ▸ homed _ (.device hd live))
      · exact .inl (own ▸ homed _ (.pairing hp live))
    | pairing row live =>
      rcases effect.live_pairing row live with ⟨hp, -⟩ | ⟨-, name, resolved⟩
      · exact .inl (homed _ (.pairing hp live))
      · exact .inl (standing_of_resolve resolved)
    | session row => exact effect.session homed row
    | token row unused own => exact effect.unused homed row unused own
  exact was.elim (fun h => effect.standing h inUse) id

theorem Homed.empty : Homed .empty := by
  rintro _ (h | h | h | h) <;> cases h

theorem Run.homed (run : Run svc es s) : Homed s.db := by
  refine run.always (Q := fun _ s => Homed s.db) .empty fun _ _ _ _ _ homed next _ => ?_
  rcases next.effect with ⟨hdb, -, -⟩ | ⟨env, -, -, effect⟩
  · rw [hdb]
    exact homed
  · exact effect.homed homed

/-- What is live was made after its holder's last reset. -/
structure Cared (es : List Event) (s : System) : Prop where
  devices : ∀ k d, s.db.devices.lookup k = some d → d.live = true →
    ClearSince (.connected k d.holder) (Event.Spares d.holder) es
  pairings : ∀ k p, s.db.pairings.lookup k = some p → p.live = true →
    ClearSince (.paired k p.holder) (Event.Spares p.holder) es

theorem Cared.init : Cared [] .init where
  devices k d h := by cases h
  pairings k p h := by cases h

theorem Cared.next {s' : System} (cared : Cared es s) (next : Next svc s shown s') :
    Cared (es ++ shown) s' := by
  rcases next.effect with ⟨hdb, -, hbegan⟩ | ⟨env, -, -, effect⟩
  · have spares : ∀ holder, ∀ e ∈ shown, Event.Spares holder e := by
      intro holder e he
      obtain ⟨n, owner, rfl⟩ := hbegan e he
      simp [Event.Spares]
    constructor
    · intro k d hk live
      rw [hdb] at hk
      exact (cared.devices k d hk live).later (spares _)
    · intro k p hk live
      rw [hdb] at hk
      exact (cared.pairings k p hk live).later (spares _)
  · constructor
    · intro k d hk live
      rcases effect.live_device hk live with ⟨⟨d₀, hd₀, live₀, own⟩, spares⟩ | ⟨rfl, -⟩
      · exact (own ▸ cared.devices k d₀ hd₀ live₀).later spares
      · exact .now []
    · intro k p hk live
      rcases effect.live_pairing hk live with ⟨hp, spares⟩ | ⟨rfl, -⟩
      · exact (cared.pairings k p hp live).later spares
      · exact .now []

theorem Run.cared (run : Run svc es s) : Cared es s :=
  run.always .init fun _ _ _ _ _ cared next _ => cared.next next

theorem authenticateDevice_ok {token : Bytes} {device : Device}
    (h : authenticateDevice svc now token db = .ok device) :
    ∃ d, db.devices.lookup device.id = some d ∧ d.live = true ∧ d.holder = device.holder := by
  unfold authenticateDevice at h
  split at h
  · cases h
  · split at h
    · cases h
    · next id d hfind =>
      cases h
      obtain ⟨hd, hcond⟩ := Table.find?_some hfind
      simp only [Bool.and_eq_true] at hcond
      exact ⟨d, hd, hcond.1.2, rfl⟩

/-- **Whatever is accepted stands.** In every run, a device that `AuthenticateDevice` accepts
    and a pairing that `RedeemPairing` would redeem belong to an owner or a member whose row
    exists and is not removed, and were made with no reset of that owner since. -/
theorem live_stands {es : List Event} {s : System} (run : Run svc es s) :
    (∀ now token device, authenticateDevice svc now token s.db = .ok device →
      s.db.Standing device.holder ∧
        ClearSince (.connected device.id device.holder) (Event.Spares device.holder) es) ∧
    (∀ now code id row, redeemable svc now code s.db = some (id, row) →
      s.db.Standing row.holder ∧
        ClearSince (.paired id row.holder) (Event.Spares row.holder) es) := by
  constructor
  · intro now token device h
    obtain ⟨d, hd, live, hholder⟩ := authenticateDevice_ok h
    rw [← hholder]
    exact ⟨run.homed _ (.device hd live), run.cared.devices _ d hd live⟩
  · intro now code id row h
    obtain ⟨hrow, live, -⟩ := redeemable_some h
    exact ⟨run.homed _ (.pairing hrow live), run.cared.pairings id row hrow live⟩

namespace Demo

/-- The owner connects a device, is reset, is set up again and connects another. -/
def twoDevices : List Event × System :=
  playAll server (opening ++ connect 5 ++ .op (moment 7) (.resetOwner SystemActor ada) ::
    (setUp 7 1 ++ connect 11)) ([], .init)

/-- Of the two devices the first is turned away; the second is accepted, and stands. -/
theorem second_device_stands : Event.reset adaID ∈ twoDevices.1 ∧
    (authenticateDevice server 3000400 ((moment 6).token 0) twoDevices.2.db).toOption = none ∧
    ∃ device, authenticateDevice server 3000400 ((moment 12).token 0) twoDevices.2.db = .ok device ∧
      twoDevices.2.db.Standing device.holder ∧
      ClearSince (.connected device.id device.holder) (Event.Spares device.holder)
        twoDevices.1 := by
  refine ⟨by decide +kernel, by decide +kernel, ?_⟩
  cases h : authenticateDevice server 3000400 ((moment 12).token 0) twoDevices.2.db with
  | ok device => exact ⟨device, rfl, (live_stands (playAll_init _)).1 _ _ device h⟩
  | error e =>
    have accepted : (authenticateDevice server 3000400 ((moment 12).token 0)
        twoDevices.2.db).toOption.isSome = true := by decide +kernel
    rw [h] at accepted
    cases accepted

end Demo

end Sesame.Selfhost
