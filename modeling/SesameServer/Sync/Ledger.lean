import SesameServer.Sync.Service

/- The store as one ledger for each vault.

   A `Ledger` is everything the store keeps for one vault, its rows found by
   their own id. `State.ledger` reads a vault's ledger off the shared maps; that
   is a faithful reading when the store is well formed (`State.WF`): every row
   lies under its own key, belongs to a stored vault, and no owner has two.

   `At s v x s'` says that `s'` is a well-formed store whose ledgers are those
   of `s`, except that vault `v` now has `x`. Each writing method of the store
   has one lemma of this form below, and an operation is a chain of them. -/
namespace Sesame.Syncsvc
open Syncproto

/-- Everything stored for one vault. -/
structure Ledger where
  vault : Vault
  entries : List DeviceListEntry
  device : Bytes → Option Device
  package : Bytes → Option KeyPackage
  header : Nat → Option StoredHeader
  ciphertexts : Finmap (fun _ : Nat => Bytes)
  pairing : Bytes → Option Pairing
  checkpoint : Bytes → Option StoredCheckpoint

/-- The ledger of a vault that has nothing but its row. -/
def Ledger.blank (vault : Vault) : Ledger :=
  { vault := vault, entries := [], device := fun _ => none, package := fun _ => none,
    header := fun _ => none, ciphertexts := ∅, pairing := fun _ => none,
    checkpoint := fun _ => none }

/-- The ledger without its expired pairings. -/
def Ledger.expire (now : Time) (L : Ledger) : Ledger :=
  { L with pairing := fun d => (L.pairing d).filter (fun pairing => now < pairing.expiresAt) }

abbrev Book := Bytes → Option Ledger

/-! Rows of many vaults in one table. -/

section Rows
variable {ρ : Type} (vaultOf idOf : ρ → Bytes) (live : Bytes → Prop)

/-- Every row lies under its own key and belongs to a live vault. -/
def Keyed (t : Table Bytes ρ) : Prop :=
  ∀ k row, t.lookup k = some row → k = key [vaultOf row, idOf row] ∧ live (vaultOf row)

/-- `t'` has `rows` for vault `v`, and for the other live vaults what `t` has. -/
structure RowsAt (t : Table Bytes ρ) (v : Bytes) (rows : Bytes → Option ρ) (t' : Table Bytes ρ) :
    Prop where
  keyed : Keyed vaultOf idOf live t'
  lookup : ∀ w, live w → ∀ d, t'.lookup (key [w, d]) = if w = v then rows d else t.lookup (key [w, d])

variable {vaultOf idOf live} {t : Table Bytes ρ}

section
variable (h : Keyed vaultOf idOf live t)
include h

theorem Keyed.deleteWhere (p : Bytes → ρ → Bool) : Keyed vaultOf idOf live (t.deleteWhere p) := by
  intro k r hr
  rw [Table.lookup_deleteWhere, Option.filter_eq_some_iff] at hr
  exact h k r hr.1

theorem Keyed.deleteVault (v : Bytes) :
    Keyed vaultOf idOf (fun w => live w ∧ w ≠ v) (t.deleteWhere fun _ r => vaultOf r = v) := by
  intro k r hr
  rw [Table.lookup_deleteWhere, Option.filter_eq_some_iff] at hr
  obtain ⟨hk, hl⟩ := h k r hr.1
  exact ⟨hk, hl, by simpa using hr.2⟩

theorem Keyed.mono {live' : Bytes → Prop} (hl : ∀ v, live v → live' v) : Keyed vaultOf idOf live' t :=
  fun k r hr => ⟨(h k r hr).1, hl _ (h k r hr).2⟩

variable {v : Bytes}

theorem Keyed.row (hz : ∀ v, live v → (0 : UInt8) ∉ v) {d : Bytes} (hv : (0 : UInt8) ∉ v) {row : ρ}
    (hr : t.lookup (key [v, d]) = some row) : vaultOf row = v ∧ idOf row = d := by
  obtain ⟨hk, hl⟩ := h _ _ hr
  obtain ⟨h₁, h₂⟩ := key_inj hv (hz _ hl) hk
  exact ⟨h₁.symm, h₂.symm⟩

theorem Keyed.mem_values {row : ρ} :
    row ∈ t.values ∧ vaultOf row = v ↔ t.lookup (key [v, idOf row]) = some row ∧ vaultOf row = v := by
  constructor
  · rintro ⟨hm, hv⟩
    obtain ⟨k, hk⟩ := Table.mem_values.mp hm
    rw [(h k row hk).1, hv] at hk
    exact ⟨hk, hv⟩
  · rintro ⟨hr, hv⟩
    exact ⟨Table.mem_values.mpr ⟨_, hr⟩, hv⟩

theorem Keyed.nodup (v : Bytes) : ((t.values.filter (fun r => vaultOf r = v)).map idOf).Nodup := by
  have hkeys : t.entries.Pairwise (fun a b => a.1 ≠ b.1) := List.pairwise_map.mp t.nodupKeys
  have hids : t.entries.Pairwise (fun a b => vaultOf a.2 = v → vaultOf b.2 = v →
      idOf a.2 ≠ idOf b.2) := by
    refine hkeys.imp_of_mem fun {a b} ha hb hne hva hvb hid => hne ?_
    rw [(h a.1 a.2 (AList.mem_lookup_iff.mpr ha)).1, (h b.1 b.2 (AList.mem_lookup_iff.mpr hb)).1,
      hva, hvb, hid]
  rw [List.Nodup, List.pairwise_map, List.pairwise_filter, Table.values, List.pairwise_map]
  simpa using hids

theorem Keyed.lookup_deleteVault (hz : ∀ v, live v → (0 : UInt8) ∉ v) {w : Bytes}
    (hv : (0 : UInt8) ∉ v) (d : Bytes) :
    (t.deleteWhere fun _ r => vaultOf r = w).lookup (key [v, d]) =
      if v = w then none else t.lookup (key [v, d]) := by
  rw [Table.lookup_deleteWhere]
  cases hr : t.lookup (key [v, d]) with
  | none => simp
  | some row =>
    have hrow := (h.row hz hv hr).1
    by_cases hvw : v = w <;> simp [hrow, hvw, Option.filter]

theorem Keyed.insert (hz : ∀ v, live v → (0 : UInt8) ∉ v) {row : ρ}
    (hlive : live (vaultOf row)) : RowsAt vaultOf idOf live t (vaultOf row)
      (Function.update (fun d => t.lookup (key [vaultOf row, d])) (idOf row) (some row))
      (t.insert (key [vaultOf row, idOf row]) row) := by
  refine ⟨fun k r hr => ?_, fun w hw d => ?_⟩
  · rcases Table.lookup_insert_some.mp hr with ⟨rfl, rfl⟩ | ⟨-, hr⟩
    · exact ⟨rfl, hlive⟩
    · exact h k r hr
  · have hkey := @key_inj w (vaultOf row) d (idOf row) (hz w hw) (hz _ hlive)
    rw [Table.lookup_insert_eq, Function.update_apply]
    grind

theorem Keyed.erase (hz : ∀ v, live v → (0 : UInt8) ∉ v) (hlive : live v) (d : Bytes) :
    RowsAt vaultOf idOf live t v
      (Function.update (fun e => t.lookup (key [v, e])) d none) (t.erase (key [v, d])) := by
  refine ⟨fun k r hr => h k r (Table.lookup_erase_some.mp hr).2, fun w hw e => ?_⟩
  have hkey := @key_inj w v e d (hz w hw) (hz v hlive)
  rw [Table.lookup_erase_eq, Function.update_apply]
  grind

end

end Rows

/-! Well-formed stores. -/

namespace State

def Stored (s : State) (v : Bytes) : Prop := (s.vaults.lookup v).isSome = true

structure WF (s : State) : Prop where
  vaults : ∀ v vault, s.vaults.lookup v = some vault → vault.id = v ∧ opaqueID v = true
  owners : ∀ v w a b, s.vaults.lookup v = some a → s.vaults.lookup w = some b →
    a.ownerKey = b.ownerKey → v = w
  devices : Keyed Device.vaultID Device.deviceID s.Stored s.devices
  packages : Keyed (fun p : KeyPackage => p.vaultID) (fun p => p.recipientDeviceID) s.Stored
    s.packages
  pairings : Keyed Pairing.vaultID Pairing.deviceID s.Stored s.pairings
  checkpoints : Keyed (fun c : StoredCheckpoint => c.vaultID) (fun c => c.deviceID) s.Stored
    s.checkpoints
  entries : ∀ v es, s.entries.lookup v = some es → s.Stored v
  headers : ∀ v hs, s.headers.lookup v = some hs → s.Stored v
  ciphertexts : ∀ v cs, s.ciphertexts.lookup v = some cs → s.Stored v

theorem newState_wf : WF newState := by
  constructor <;> intros <;> simp_all [newState, Keyed]

def ledgerOf (s : State) (v : Bytes) (vault : Vault) : Ledger :=
  { vault := vault
    entries := s.entriesOf v
    device := fun d => s.devices.lookup (key [v, d])
    package := fun d => s.packages.lookup (key [v, d])
    header := fun r => (s.headersOf v).lookup r
    ciphertexts := (s.ciphertextsOf v).toFinmap
    pairing := fun d => s.pairings.lookup (key [v, d])
    checkpoint := fun d => s.checkpoints.lookup (key [v, d]) }

/-- The ledger of a vault, if it is stored. -/
def ledger (s : State) : Book := fun v => (s.vaults.lookup v).map (s.ledgerOf v)

variable {s s' : State} {v w : Bytes} {L : Ledger}

theorem ledger_some (h : s.ledger v = some L) :
    s.vaults.lookup v = some L.vault ∧ L = s.ledgerOf v L.vault := by
  unfold ledger at h
  cases hv : s.vaults.lookup v with
  | none => simp [hv] at h
  | some vault =>
    simp only [hv, Option.map_some, Option.some.injEq] at h
    subst h
    exact ⟨rfl, rfl⟩

theorem ledger_of_lookup {vault : Vault} (h : s.vaults.lookup v = some vault) :
    s.ledger v = some (s.ledgerOf v vault) := by simp [ledger, h]

theorem ledger_none : s.ledger v = none ↔ s.vaults.lookup v = none := by
  simp [ledger]

theorem stored_of_ledger (h : s.ledger v = some L) : s.Stored v := by
  simp [Stored, (ledger_some h).1]

section
variable (wf : WF s)
include wf

theorem WF.no_zero (h : s.Stored v) : (0 : UInt8) ∉ v := by
  obtain ⟨vault, hv⟩ := Option.isSome_iff_exists.mp h
  exact opaqueID_no_zero (wf.vaults v vault hv).2

theorem WF.ledger_owner {w : Bytes} {M : Ledger} (hL : s.ledger v = some L)
    (hM : s.ledger w = some M) (h : M.vault.ownerKey = L.vault.ownerKey) : M = L := by
  obtain rfl := wf.owners w v _ _ (ledger_some hM).1 (ledger_some hL).1 h
  exact Option.some.inj (hM.symm.trans hL)

theorem WF.ledger_id (h : s.ledger v = some L) : L.vault.id = v :=
  (wf.vaults v L.vault (ledger_some h).1).1

theorem WF.device_row (h : s.ledger v = some L) {d : Bytes} {row : Device}
    (hr : L.device d = some row) : row.vaultID = v ∧ row.deviceID = d := by
  rw [(ledger_some h).2] at hr
  exact wf.devices.row (fun _ => wf.no_zero) (wf.no_zero (stored_of_ledger h)) hr

theorem WF.package_row (h : s.ledger v = some L) {d : Bytes} {row : KeyPackage}
    (hr : L.package d = some row) : row.vaultID = v ∧ row.recipientDeviceID = d := by
  rw [(ledger_some h).2] at hr
  exact wf.packages.row (fun _ => wf.no_zero) (wf.no_zero (stored_of_ledger h)) hr

theorem WF.pairing_row (h : s.ledger v = some L) {d : Bytes} {row : Pairing}
    (hr : L.pairing d = some row) : row.vaultID = v ∧ row.deviceID = d := by
  rw [(ledger_some h).2] at hr
  exact wf.pairings.row (fun _ => wf.no_zero) (wf.no_zero (stored_of_ledger h)) hr

/-- A vault that is not stored has no rows left over in any map. -/
theorem WF.blank_of_unstored (hz : (0 : UInt8) ∉ v) (h : ¬s.Stored v) (vault : Vault) :
    s.ledgerOf v vault = Ledger.blank vault := by
  have rows : ∀ {ρ : Type} {vaultOf idOf : ρ → Bytes} {t : Table Bytes ρ},
      Keyed vaultOf idOf s.Stored t → ∀ d, t.lookup (key [v, d]) = none := by
    intro ρ vaultOf idOf t ht d
    cases hr : t.lookup (key [v, d]) with
    | none => rfl
    | some row =>
      have hrow := (ht.row (fun _ => wf.no_zero) hz hr).1
      exact absurd (hrow ▸ (ht _ _ hr).2) h
  have maps : ∀ {ν : Type} {t : Table Bytes ν}, (∀ w x, t.lookup w = some x → s.Stored w) →
      t.lookup v = none := by
    intro ν t ht
    cases hx : t.lookup v with
    | none => rfl
    | some x => exact absurd (ht v x hx) h
  simp only [ledgerOf, Ledger.blank, entriesOf, headersOf, ciphertextsOf, Table.getD,
    rows wf.devices, rows wf.packages, rows wf.pairings, rows wf.checkpoints, maps wf.entries,
    maps wf.headers, maps wf.ciphertexts, Option.getD_none, AList.lookup_empty]
  rfl

theorem WF.mem_devices (h : s.ledger v = some L) {row : Device} :
    row ∈ s.devices.values ∧ row.vaultID = v ↔ L.device row.deviceID = some row := by
  rw [wf.devices.mem_values, (ledger_some h).2]
  refine ⟨fun hr => hr.1, fun hr => ⟨hr, ?_⟩⟩
  exact (wf.devices.row (fun _ => wf.no_zero) (wf.no_zero (stored_of_ledger h)) hr).1

theorem WF.mem_pairings (h : s.ledger v = some L) {row : Pairing} :
    row ∈ s.pairings.values ∧ row.vaultID = v ↔ L.pairing row.deviceID = some row := by
  rw [wf.pairings.mem_values, (ledger_some h).2]
  refine ⟨fun hr => hr.1, fun hr => ⟨hr, ?_⟩⟩
  exact (wf.pairings.row (fun _ => wf.no_zero) (wf.no_zero (stored_of_ledger h)) hr).1

theorem mem_devicesOf (h : s.ledger v = some L) {row : Device} :
    row ∈ s.devicesOf v ↔ L.device row.deviceID = some row := by
  rw [← wf.mem_devices h]
  simp [devicesOf]

theorem WF.nodup_devicesOf (v : Bytes) : ((s.devicesOf v).map (·.deviceID)).Nodup :=
  ((List.perm_insertionSort _ _).map _).nodup_iff.mpr (wf.devices.nodup v)

theorem mem_pairingsOf (h : s.ledger v = some L) {row : Pairing} :
    row ∈ s.pairingsOf v ↔ L.pairing row.deviceID = some row := by
  rw [← wf.mem_pairings h]
  simp [pairingsOf]

theorem WF.nodup_pairingsOf (v : Bytes) : ((s.pairingsOf v).map (·.deviceID)).Nodup :=
  ((List.perm_insertionSort _ _).map _).nodup_iff.mpr (wf.pairings.nodup v)

/-- The devices a vault has a pairing for are as many as `Pairings` returns. -/
theorem WF.pairing_ids (h : s.ledger v = some L) : ∃ ids : Finset Bytes,
    ids.card = (s.pairingsOf v).length ∧ ∀ d p, L.pairing d = some p → d ∈ ids := by
  refine ⟨((s.pairingsOf v).map (·.deviceID)).toFinset, ?_, fun d p hp => ?_⟩
  · rw [List.toFinset_card_of_nodup (wf.nodup_pairingsOf v), List.length_map]
  · have hid := (wf.pairing_row h hp).2
    exact List.mem_toFinset.mpr (List.mem_map.mpr
      ⟨p, (mem_pairingsOf wf h).mpr (by rw [hid]; exact hp), hid⟩)

end

/-! One vault's ledger changes. -/

/-- `s'` is well formed and has the ledgers of `s`, with `x` for vault `v`. -/
structure At (s : State) (v : Bytes) (x : Option Ledger) (s' : State) : Prop where
  wf : WF s'
  ledger : s'.ledger = Function.update s.ledger v x

theorem At.here {x : Option Ledger} (h : At s v x s') : s'.ledger v = x := by
  rw [h.ledger, Function.update_self]

theorem At.trans {x y : Option Ledger} {s₂ : State} (h : At s v x s') (h' : At s' v y s₂) :
    At s v y s₂ := by
  refine ⟨h'.wf, ?_⟩
  rw [h'.ledger, h.ledger, Function.update_idem]

theorem At.refl (wf : WF s) (h : s.ledger v = some L) : At s v (some L) s :=
  ⟨wf, by rw [← h, Function.update_eq_self]⟩

theorem WF.nonces (wf : WF s) (n : Table Bytes Time) : WF { s with nonces := n } :=
  ⟨wf.vaults, wf.owners, wf.devices, wf.packages, wf.pairings, wf.checkpoints, wf.entries,
    wf.headers, wf.ciphertexts⟩

theorem ledger_nonces (n : Table Bytes Time) : ({ s with nonces := n } : State).ledger = s.ledger :=
  rfl

/-- A change of the maps that keeps the stored vaults as they are is at `v` when
    every other stored vault reads the same. -/
theorem At.of_vaults (f : Ledger → Ledger) (hL : s.ledger v = some L) (wf : WF s')
    (hvaults : s'.vaults = s.vaults) (reads : ∀ w vault, s.Stored w →
      s'.ledgerOf w vault = if w = v then f (s.ledgerOf w vault) else s.ledgerOf w vault) :
    At s v (some (f L)) s' := by
  refine ⟨wf, funext fun w => ?_⟩
  rw [Function.update_apply, State.ledger, hvaults]
  split
  · next hw =>
    obtain ⟨hlook, hrows⟩ := ledger_some hL
    rw [hw, hlook, Option.map_some, reads v _ (stored_of_ledger hL), if_pos rfl, ← hrows]
  · next hw =>
    cases hlook : s.vaults.lookup w with
    | none => simp [State.ledger, hlook]
    | some vault =>
      rw [ledger_of_lookup hlook, Option.map_some, reads w vault (by simp [Stored, hlook]), if_neg hw]

end State

end Sesame.Syncsvc
