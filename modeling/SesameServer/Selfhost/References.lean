import SesameServer.Selfhost.System

/- Every reference leads to a row: the foreign keys of `0001_init.sql` in every reachable state.

   1. `Linked` — the references: of sessions and setup tokens to owners, of devices and
      pairings to their holders, of a pairing to its device, which only a used one has.
   2. `Linked.maintained` — `Maintain` breaks none, since a pairing goes whenever its device
      does: it is deleted after a day, the device after thirty.
   3. `Run.linked` — hence all of them hold in every run. -/
namespace Sesame.Selfhost
open Outcome

def Db.Has (db : Db) (holder : Holder) : Prop := (db.holderName holder).isSome = true

structure Linked (db : Db) : Prop where
  sessions : ∀ k s, db.sessions.lookup k = some s → db.Has (.owner s.ownerID)
  tokens : ∀ k t owner, db.setupTokens.lookup k = some t → t.purpose.owner = some owner →
    db.Has (.owner owner)
  devices : ∀ k d, db.devices.lookup k = some d → db.Has d.holder
  pairings : ∀ k p, db.pairings.lookup k = some p → db.Has p.holder
  redeemed : ∀ k p id, db.pairings.lookup k = some p → p.deviceID = some id →
    (db.devices.lookup id).isSome = true ∧ p.usedAt.isSome = true

variable {svc : Service} {env : Env} {db db' : Db} {shown : List Event}

variable {id : Bytes} {cutoff : Int}

theorem Db.has_owner : db.Has (.owner id) ↔ ∃ row, db.owners.lookup id = some row := by
  simp [Db.Has, Db.holderName, Option.isSome_iff_exists]

theorem Db.has_member : db.Has (.member id) ↔ ∃ row, db.members.lookup id = some row := by
  simp [Db.Has, Db.holderName, Option.isSome_iff_exists]

/-! Steps that delete no holder and no device. -/

/-- Every holder and device that has a row keeps one, and every reference of `db'` is one of
    `db` or is seen to lead to a row. What a step leaves as it was needs no proof. -/
structure Follows (db db' : Db) : Prop where
  owners : ∀ id, (∃ row, db.owners.lookup id = some row) → ∃ row, db'.owners.lookup id = some row := by
    exact fun _ h => h
  members : ∀ id, (∃ row, db.members.lookup id = some row) → ∃ row, db'.members.lookup id = some row := by
    exact fun _ h => h
  kept : ∀ id, (db.devices.lookup id).isSome = true → (db'.devices.lookup id).isSome = true := by
    exact fun _ h => h
  sessions : ∀ k s, db'.sessions.lookup k = some s → db'.Has (.owner s.ownerID) ∨
      ∃ k₀ s₀, db.sessions.lookup k₀ = some s₀ ∧ s₀.ownerID = s.ownerID := by
    exact fun k s h => .inr ⟨k, s, h, rfl⟩
  tokens : ∀ k t owner, db'.setupTokens.lookup k = some t → t.purpose.owner = some owner →
      db'.Has (.owner owner) ∨ ∃ t₀, db.setupTokens.lookup k = some t₀ ∧ t₀.purpose = t.purpose := by
    exact fun _ t _ h _ => .inr ⟨t, h, rfl⟩
  devices : ∀ k d, db'.devices.lookup k = some d → db'.Has d.holder ∨
      ∃ d₀, db.devices.lookup k = some d₀ ∧ d₀.holder = d.holder := by
    exact fun _ d h => .inr ⟨d, h, rfl⟩
  pairings : ∀ k p, db'.pairings.lookup k = some p → (db'.Has p.holder ∧ p.deviceID = none) ∨
      ∃ p₀, db.pairings.lookup k = some p₀ ∧ p₀.holder = p.holder ∧
        (p.deviceID = p₀.deviceID ∧ p.usedAt = p₀.usedAt ∨ ∀ id, p.deviceID = some id →
          (db'.devices.lookup id).isSome = true ∧ p.usedAt.isSome = true) := by
    exact fun _ p h => .inr ⟨p, h, rfl, .inl ⟨rfl, rfl⟩⟩

variable {holder : Holder} {d : DeviceRow}

theorem Follows.has (follows : Follows db db') (h : db.Has holder) : db'.Has holder := by
  cases holder with
  | owner id => exact Db.has_owner.mpr (follows.owners id (Db.has_owner.mp h))
  | member id => exact Db.has_member.mpr (follows.members id (Db.has_member.mp h))

theorem Linked.follow (linked : Linked db) (follows : Follows db db') : Linked db' where
  sessions k s h := by
    rcases follows.sessions k s h with h | ⟨k₀, s₀, h₀, heq⟩
    · exact h
    · exact heq ▸ follows.has (linked.sessions k₀ s₀ h₀)
  tokens k t owner h howner := by
    rcases follows.tokens k t owner h howner with h | ⟨t₀, h₀, heq⟩
    · exact h
    · exact follows.has (linked.tokens k t₀ owner h₀ (heq ▸ howner))
  devices k d h := by
    rcases follows.devices k d h with h | ⟨d₀, h₀, heq⟩
    · exact h
    · exact heq ▸ follows.has (linked.devices k d₀ h₀)
  pairings k p h := by
    rcases follows.pairings k p h with ⟨h, -⟩ | ⟨p₀, h₀, heq, -⟩
    · exact h
    · exact heq ▸ follows.has (linked.pairings k p₀ h₀)
  redeemed k p id h hid := by
    rcases follows.pairings k p h with ⟨-, hnone⟩ | ⟨p₀, h₀, -, ⟨hdevice, hused⟩ | hnew⟩
    · rw [hnone] at hid
      cases hid
    · obtain ⟨hrow, hu⟩ := linked.redeemed k p₀ id h₀ (hdevice ▸ hid)
      exact ⟨follows.kept id hrow, hused ▸ hu⟩
    · exact hnew id hid

/-- Revoking and cancelling leaves the references as they are. -/
theorem Linked.cut (linked : Linked db) {devices : Table Bytes DeviceRow} {pairings : Table Bytes PairingRow}
    (dimmed : Dimmed db.devices devices) (cancelled : Cancelled db.pairings pairings) :
    Linked { db with devices := devices, pairings := pairings } := by
  refine linked.follow { kept := fun k hk => ?_, devices := fun k d h => ?_, pairings := fun k p h => ?_ }
  · obtain ⟨d, hd⟩ := Option.isSome_iff_exists.mp hk
    have hrel := dimmed k
    rw [hd] at hrel
    generalize devices.lookup k = after at hrel ⊢
    cases hrel
    rfl
  · obtain ⟨d₀, hd₀, own, -⟩ := dimmed.before h
    exact .inr ⟨d₀, hd₀, own.symm⟩
  · rcases cancelled k with same | ⟨p₀, now, hp₀, hp⟩
    · exact .inr ⟨p, same ▸ h, rfl, .inl ⟨rfl, rfl⟩⟩
    · cases hp.symm.trans h
      exact .inr ⟨p₀, hp₀, rfl, .inl ⟨rfl, rfl⟩⟩

theorem exists_insert {κ ν : Type} [DecidableEq κ] {t : Table κ ν} {k k₀ : κ} (v : ν)
    (h : ∃ w, t.lookup k = some w) : ∃ w, (t.insert k₀ v).lookup k = some w := by
  rw [Table.lookup_insert_eq]
  split
  · exact ⟨v, rfl⟩
  · exact h

theorem exists_updateWhere {κ ν : Type} [DecidableEq κ] {t : Table κ ν} {k : κ} {p : κ → ν → Bool}
    {f : ν → ν} (h : ∃ w, t.lookup k = some w) : ∃ w, (t.updateWhere p f).lookup k = some w := by
  obtain ⟨w, hw⟩ := h
  exact ⟨_, Table.lookup_updateWhere_some.mpr ⟨w, hw, rfl⟩⟩

theorem Db.has_of_resolve {name : Bytes} (h : db.resolveHolder holder = some name) :
    db.Has holder := by
  cases holder with
  | owner id =>
    obtain ⟨row, hrow, -⟩ := Option.map_eq_some_iff.mp h
    exact Db.has_owner.mpr ⟨row, (Option.filter_eq_some_iff.mp hrow).1⟩
  | member id =>
    obtain ⟨row, hrow, -⟩ := Option.map_eq_some_iff.mp h
    exact Db.has_member.mpr ⟨row, (Option.filter_eq_some_iff.mp hrow).1⟩

/-! `Maintain`. -/

theorem DeviceRow.expired_mono {cutoff' : Int} (h : cutoff ≤ cutoff') (hd : d.expired cutoff = true) :
    d.expired cutoff' = true := by
  simp only [DeviceRow.expired, Bool.or_eq_true, Option.any_eq_true, decide_eq_true_eq] at hd ⊢
  rcases hd with ⟨at_, hat, hlt⟩ | hlt
  · exact .inl ⟨at_, hat, by omega⟩
  · exact .inr (by omega)

theorem not_expired_of_kept {now : Int} {p : PairingRow}
    (hkept : db.stalePairing (now - pairingRetention) p = false) (hid : p.deviceID = some id)
    (hd : db.devices.lookup id = some d) : d.expired (now - deviceRetention) = false := by
  rw [Db.stalePairing, Bool.or_eq_false_iff] at hkept
  have hnot : d.expired (now - pairingRetention) = false := by simpa [hid, hd] using hkept.2
  cases hexpired : d.expired (now - deviceRetention) with
  | false => rfl
  | true =>
    rw [DeviceRow.expired_mono (by unfold pairingRetention deviceRetention; omega) hexpired] at hnot
    cases hnot

theorem Db.not_forgotten {removedAt : Option Int} (h : db.referred holder = true) :
    db.forgotten cutoff holder removedAt = false := by
  simp [Db.forgotten, h]

theorem Db.referred_device {k : Bytes} (h : db.devices.lookup k = some d) :
    db.referred d.holder = true := by
  rw [Db.referred, Bool.or_eq_true]
  exact .inl (Table.find?_isSome h (by simp))

theorem Db.referred_pairing {k : Bytes} {p : PairingRow} (h : db.pairings.lookup k = some p) :
    db.referred p.holder = true := by
  rw [Db.referred, Bool.or_eq_true]
  exact .inr (Table.find?_isSome h (by simp))

theorem Db.has_pruned (hrow : db.Has holder) (h : db.referred holder = true) :
    (db.pruned cutoff).Has holder := by
  cases holder with
  | owner id =>
    obtain ⟨row, hrow⟩ := Db.has_owner.mp hrow
    exact Db.has_owner.mpr ⟨row, Table.lookup_deleteWhere_some.mpr ⟨hrow, Db.not_forgotten h⟩⟩
  | member id =>
    obtain ⟨row, hrow⟩ := Db.has_member.mp hrow
    exact Db.has_member.mpr ⟨row, Table.lookup_deleteWhere_some.mpr ⟨hrow, Db.not_forgotten h⟩⟩

theorem Db.has_owner_pruned (hrow : db.Has (.owner id))
    (h : db.ownerGone cutoff id = false) : (db.pruned cutoff).Has (.owner id) := by
  obtain ⟨row, hrow⟩ := Db.has_owner.mp hrow
  refine Db.has_owner.mpr ⟨row, Table.lookup_deleteWhere_some.mpr ⟨hrow, ?_⟩⟩
  simpa [Db.ownerGone, hrow] using h

theorem Linked.maintained (linked : Linked db) (now : Int) :
    Linked ((db.swept now).pruned (now - holderRetention)) where
  sessions k s h := by
    obtain ⟨h, hgone⟩ := Table.lookup_deleteWhere_some.mp h
    exact Db.has_owner_pruned (linked.sessions k s (Table.lookup_deleteWhere_some.mp h).1) hgone
  tokens k t owner h howner := by
    obtain ⟨h, hgone⟩ := Table.lookup_deleteWhere_some.mp h
    rw [howner] at hgone
    exact Db.has_owner_pruned (linked.tokens k t owner (Table.lookup_deleteWhere_some.mp h).1 howner)
      hgone
  devices k d h :=
    Db.has_pruned (linked.devices k d (Table.lookup_deleteWhere_some.mp h).1) (Db.referred_device h)
  pairings k p h :=
    Db.has_pruned (linked.pairings k p (Table.lookup_deleteWhere_some.mp h).1)
      (Db.referred_pairing h)
  redeemed k p id h hid := by
    obtain ⟨h, hkept⟩ := Table.lookup_deleteWhere_some.mp h
    obtain ⟨hrow, hused⟩ := linked.redeemed k p id h hid
    obtain ⟨d, hd⟩ := Option.isSome_iff_exists.mp hrow
    refine ⟨Option.isSome_iff_exists.mpr ⟨d, Table.lookup_deleteWhere_some.mpr ⟨hd, ?_⟩⟩, hused⟩
    exact not_expired_of_kept hkept hid hd

/-! All steps. -/

theorem Effect.linked (effect : Effect svc env db shown db') (linked : Linked db) : Linked db' := by
  cases effect with
  | first =>
    refine linked.follow { tokens := fun k t owner h howner => ?_ }
    rcases Table.lookup_insert_some.mp h with ⟨-, rfl⟩ | ⟨-, h⟩
    · cases howner
    · exact .inr ⟨t, (Table.lookup_deleteWhere_some.mp h).1, rfl⟩
  | invited fresh =>
    refine linked.follow { owners := fun _ h => exists_insert _ h, tokens := fun k t owner h howner => ?_ }
    rcases Table.lookup_insert_some.mp h with ⟨-, rfl⟩ | ⟨-, h⟩
    · cases howner
      exact .inl (Db.has_owner.mpr ⟨_, AList.lookup_insert _⟩)
    · exact .inr ⟨t, h, rfl⟩
  | reset lookup =>
    refine (linked.cut (.updateWhere _ _ _) (.cancelledOf _ _ _)).follow {
      owners := fun _ h => exists_updateWhere h
      sessions := fun k s h => .inr ⟨k, s, (Table.lookup_deleteWhere_some.mp h).1, rfl⟩
      tokens := fun k t owner h howner => ?_ }
    rcases Table.lookup_insert_some.mp h with ⟨-, rfl⟩ | ⟨-, h⟩
    · cases howner
      exact .inl (Db.has_owner.mpr (exists_updateWhere ⟨_, lookup⟩))
    · exact .inr ⟨t, (Table.lookup_deleteWhere_some.mp h).1, rfl⟩
  | removed lookup =>
    exact (linked.cut (.updateWhere _ _ _) (.cancelledOf _ _ _)).follow {
      owners := fun _ h => exists_updateWhere h
      sessions := fun k s h => .inr ⟨k, s, (Table.lookup_deleteWhere_some.mp h).1, rfl⟩
      tokens := fun k t owner h _ => .inr ⟨t, (Table.lookup_deleteWhere_some.mp h).1, rfl⟩ }
  | shown => exact linked
  | detailed =>
    refine linked.follow { tokens := fun k t owner h _ => .inr ?_ }
    obtain ⟨t₀, h₀, hif⟩ := Table.lookup_updateWhere_some.mp h
    refine ⟨t₀, h₀, ?_⟩
    split at hif <;> rw [← hif]
  | completed lookup unused installed own =>
    obtain ⟨row, rfl⟩ := installed.insert
    refine linked.follow {
      owners := fun _ h => exists_insert _ h
      sessions := fun k s h => ?_
      tokens := fun k t owner h _ => .inr ?_ }
    · rcases Table.lookup_insert_some.mp h with ⟨-, rfl⟩ | ⟨-, h⟩
      · exact .inl (Db.has_owner.mpr ⟨row, own ▸ AList.lookup_insert _⟩)
      · exact .inr ⟨k, s, h, rfl⟩
    · rcases Table.lookup_insert_some.mp h with ⟨rfl, rfl⟩ | ⟨-, h⟩
      · exact ⟨_, lookup, rfl⟩
      · exact ⟨t, h, rfl⟩
  | accepted lookup later hash standing own =>
    refine linked.follow { owners := fun _ h => exists_insert _ h, sessions := fun k s h => ?_ }
    rcases own k s h with howner | ⟨s₀, h₀, howner⟩
    · rw [howner]
      exact .inl (Db.has_owner.mpr ⟨_, AList.lookup_insert _⟩)
    · exact .inr ⟨k, s₀, h₀, howner.symm⟩
  | quiet dimmed cancelled ended =>
    exact (linked.cut dimmed cancelled).follow { sessions := fun k s h => .inr ⟨k, s, ended k s h, rfl⟩ }
  | memberAdded | memberRenamed => exact linked.follow { members := fun _ h => exists_insert _ h }
  | memberRemoved =>
    exact (linked.cut (.updateWhere _ _ _) (.cancelledOf _ _ _)).follow
      { members := fun _ h => exists_insert _ h }
  | @paired holder _ _ _ resolved own unused noDevice =>
    refine (linked.cut (.refl _) (.cancelledOf (env.clock 0) holder _)).follow { pairings := fun k p h => ?_ }
    rcases Table.lookup_insert_some.mp h with ⟨-, rfl⟩ | ⟨-, h⟩
    · have hrow : db.Has _ := Db.has_of_resolve resolved
      exact .inl ⟨own ▸ hrow, noDevice⟩
    · exact .inr ⟨p, h, rfl, .inl ⟨rfl, rfl⟩⟩
  | connected lookup live own fresh redeemed =>
    refine linked.follow {
      kept := fun k h => ?_
      devices := fun k d h => ?_
      pairings := fun k p h => .inr ?_ }
    · rw [Option.isSome_iff_exists] at h ⊢
      exact exists_insert _ h
    · rcases Table.lookup_insert_some.mp h with ⟨-, rfl⟩ | ⟨-, h⟩
      · exact .inl (own ▸ linked.pairings _ _ lookup)
      · exact .inr ⟨d, h, rfl⟩
    · obtain ⟨p₀, h₀, hif⟩ := Option.map_eq_some_iff.mp ((redeemed k).symm.trans h)
      split at hif
      · refine ⟨p₀, h₀, hif ▸ rfl, .inr fun id hid => ?_⟩
        rw [← hif] at hid ⊢
        cases hid
        exact ⟨by simp, rfl⟩
      · exact ⟨p₀, h₀, hif ▸ rfl, .inl (hif ▸ ⟨rfl, rfl⟩)⟩
  | maintained => exact linked.maintained _

theorem Linked.empty : Linked .empty where
  sessions _ _ h := by cases h
  tokens _ _ _ h := by cases h
  devices _ _ h := by cases h
  pairings _ _ h := by cases h
  redeemed _ _ _ h := by cases h

/-- **No reference dangles**, in any run. -/
theorem Run.linked {es : List Event} {s : System} (run : Run svc es s) : Linked s.db := by
  refine run.always (Q := fun _ s => Linked s.db) Linked.empty fun _ _ _ _ _ linked next _ => ?_
  rcases next.effect with ⟨hdb, -, -⟩ | ⟨env, -, -, effect⟩
  · rw [hdb]
    exact linked
  · exact effect.linked linked

end Sesame.Selfhost
