import SesameServer.Sync.Ledger

/- What each writing method of the store does to the ledgers: one lemma for
   each method, in the form `At`. Opening and closing a vault, and the expiry
   that reaches every vault at once, have their own forms at the end. -/
namespace Sesame.Syncsvc
open Syncproto

namespace State

variable {s s' : State} {v : Bytes} {L : Ledger}

/-! One table of a vault. -/

section
variable (wf : WF s) (hL : s.ledger v = some L)
include wf hL

theorem At.devices {rows : Bytes → Option Device} {t : Table Bytes Device}
    (h : RowsAt Device.vaultID Device.deviceID s.Stored s.devices v rows t) :
    At s v (some { L with device := rows }) { s with devices := t } := by
  refine At.of_vaults ({ · with device := rows }) hL { wf with devices := h.keyed } rfl fun w vault hst => ?_
  split <;> simp only [ledgerOf, h.lookup w hst, *] <;> rfl

theorem At.packages {rows : Bytes → Option KeyPackage} {t : Table Bytes KeyPackage}
    (h : RowsAt (fun p : KeyPackage => p.vaultID) (fun p => p.recipientDeviceID) s.Stored s.packages
      v rows t) : At s v (some { L with package := rows }) { s with packages := t } := by
  refine At.of_vaults ({ · with package := rows }) hL { wf with packages := h.keyed } rfl
    fun w vault hst => ?_
  split <;> simp only [ledgerOf, h.lookup w hst, *] <;> rfl

theorem At.pairings {rows : Bytes → Option Pairing} {t : Table Bytes Pairing}
    (h : RowsAt Pairing.vaultID Pairing.deviceID s.Stored s.pairings v rows t) :
    At s v (some { L with pairing := rows }) { s with pairings := t } := by
  refine At.of_vaults ({ · with pairing := rows }) hL { wf with pairings := h.keyed } rfl
    fun w vault hst => ?_
  split <;> simp only [ledgerOf, h.lookup w hst, *] <;> rfl

theorem At.checkpoints {rows : Bytes → Option StoredCheckpoint} {t : Table Bytes StoredCheckpoint}
    (h : RowsAt (fun c : StoredCheckpoint => c.vaultID) (fun c => c.deviceID) s.Stored s.checkpoints
      v rows t) : At s v (some { L with checkpoint := rows }) { s with checkpoints := t } := by
  refine At.of_vaults ({ · with checkpoint := rows }) hL { wf with checkpoints := h.keyed } rfl
    fun w vault hst => ?_
  split <;> simp only [ledgerOf, h.lookup w hst, *] <;> rfl

theorem At.entries (entries : List DeviceListEntry) :
    At s v (some { L with entries := entries }) { s with entries := s.entries.insert v entries } := by
  refine At.of_vaults ({ · with entries := entries }) hL { wf with entries := ?_ } rfl fun w vault _ => ?_
  · exact Table.forall_lookup_insert wf.entries (stored_of_ledger hL)
  · split <;> simp only [ledgerOf, entriesOf, Table.getD_insert, *] <;> rfl

theorem At.headers {byRevision : Table Nat StoredHeader}
    {rows : Nat → Option StoredHeader} (h : ∀ r, byRevision.lookup r = rows r) :
    At s v (some { L with header := rows }) { s with headers := s.headers.insert v byRevision } := by
  refine At.of_vaults ({ · with header := rows }) hL { wf with headers := ?_ } rfl fun w vault _ => ?_
  · exact Table.forall_lookup_insert wf.headers (stored_of_ledger hL)
  · split <;> simp only [ledgerOf, headersOf, Table.getD_insert, if_true, *] <;> rfl

theorem At.ciphertexts (byRevision : Table Nat Bytes) :
    At s v (some { L with ciphertexts := byRevision.toFinmap })
      { s with ciphertexts := s.ciphertexts.insert v byRevision } := by
  refine At.of_vaults ({ · with ciphertexts := _ }) hL { wf with ciphertexts := ?_ } rfl fun w vault _ => ?_
  · exact Table.forall_lookup_insert wf.ciphertexts (stored_of_ledger hL)
  · split <;> simp only [ledgerOf, ciphertextsOf, Table.getD_insert, *] <;> rfl

end

/-! Rows of a vault. -/

variable {row : Device} {vault : Vault}

section
variable (wf : WF s) (hL : s.ledger v = some L)
include wf hL

theorem putDevice_at (h : s.putDevice row = .ok s') (hv : row.vaultID = v) :
    At s v (some { L with device := Function.update L.device row.deviceID (some row) }) s' := by
  subst hv
  unfold putDevice at h
  split at h
  · cases h
  obtain rfl := Except.ok.inj h
  obtain ⟨vault, -, rfl⟩ := Option.map_eq_some_iff.mp hL
  exact At.devices wf hL (wf.devices.insert (fun _ => wf.no_zero) (stored_of_ledger hL))

/-- A device that is not revoked is stored only if its token is free. -/
theorem putDevice_token (hv : row.vaultID = v) (hstate : row.state ≠ .revoked)
    (h : s.putDevice row = .ok s') {d : Bytes} {other : Device} (ho : L.device d = some other)
    (ht : other.tokenDeviceID = row.tokenDeviceID) (hd : d ≠ row.deviceID) :
    other.state = .revoked := by
  unfold putDevice at h
  split at h
  · cases h
  · next hfree =>
    by_contra hne
    apply hfree
    obtain ⟨hov, hod⟩ := wf.device_row hL ho
    refine ⟨hstate, List.any_eq_true.mpr ⟨other, ?_, ?_⟩⟩
    · exact ((wf.mem_devices hL).mpr (by rw [hod]; exact ho)).1
    · simp [hov, hv, ht, hod, hd, hne]

theorem putDevice_ok (hv : row.vaultID = v)
    (hfree : ∀ d other, L.device d = some other → other.tokenDeviceID = row.tokenDeviceID →
      d ≠ row.deviceID → other.state = .revoked) : ∃ s', s.putDevice row = .ok s' := by
  unfold putDevice
  rw [if_neg]
  · exact ⟨_, rfl⟩
  rintro ⟨_, htaken⟩
  obtain ⟨other, hm, ho⟩ := List.any_eq_true.mp htaken
  simp only [ne_eq, decide_eq_true_eq] at ho
  obtain ⟨hov, hot, hod, hos⟩ := ho
  have := (wf.mem_devices hL).mp ⟨hm, hov.trans hv⟩
  exact hos (hfree _ other this hot hod)

theorem putKeyPackage_at (row : KeyPackage) (hv : row.vaultID = v) :
    At s v (some { L with package := Function.update L.package row.recipientDeviceID (some row) })
      (s.putKeyPackage row) := by
  subst hv
  obtain ⟨vault, -, rfl⟩ := Option.map_eq_some_iff.mp hL
  exact At.packages wf hL (wf.packages.insert (fun _ => wf.no_zero) (stored_of_ledger hL))

theorem deleteKeyPackages_at :
    At s v (some { L with package := fun _ => none }) (s.deleteKeyPackages v) :=
  At.packages wf hL ⟨wf.packages.deleteWhere _, fun _ hw =>
    wf.packages.lookup_deleteVault (fun _ => wf.no_zero) (wf.no_zero hw)⟩

theorem putPairing_at (row : Pairing) (hv : row.vaultID = v) :
    At s v (some { L with pairing := Function.update L.pairing row.deviceID (some row) })
      (s.putPairing row) := by
  subst hv
  obtain ⟨vault, -, rfl⟩ := Option.map_eq_some_iff.mp hL
  exact At.pairings wf hL (wf.pairings.insert (fun _ => wf.no_zero) (stored_of_ledger hL))

theorem deletePairing_at (d : Bytes) :
    At s v (some { L with pairing := Function.update L.pairing d none }) (s.deletePairing v d) := by
  obtain ⟨vault, -, rfl⟩ := Option.map_eq_some_iff.mp hL
  exact At.pairings wf hL (wf.pairings.erase (fun _ => wf.no_zero) (stored_of_ledger hL) d)

theorem putCheckpoint_at (row : StoredCheckpoint) (hv : row.vaultID = v) :
    At s v (some { L with checkpoint := Function.update L.checkpoint row.deviceID (some row) })
      (s.putCheckpoint row) := by
  subst hv
  obtain ⟨vault, -, rfl⟩ := Option.map_eq_some_iff.mp hL
  exact At.checkpoints wf hL (wf.checkpoints.insert (fun _ => wf.no_zero) (stored_of_ledger hL))

theorem deleteCheckpoint_at (d : Bytes) :
    At s v (some { L with checkpoint := Function.update L.checkpoint d none })
      (s.deleteCheckpoint v d) := by
  obtain ⟨vault, -, rfl⟩ := Option.map_eq_some_iff.mp hL
  exact At.checkpoints wf hL (wf.checkpoints.erase (fun _ => wf.no_zero) (stored_of_ledger hL) d)

/-! Lists and maps of a vault. -/

theorem appendDeviceListEntry_at {entry : DeviceListEntry}
    (h : s.appendDeviceListEntry entry = .ok s') (hv : entry.vaultID = v) :
    At s v (some { L with entries := L.entries ++ [entry] }) s' := by
  subst hv
  unfold appendDeviceListEntry at h
  split at h
  · cases h
  obtain rfl := Except.ok.inj h
  obtain ⟨vault, -, rfl⟩ := Option.map_eq_some_iff.mp hL
  exact At.entries wf hL _

theorem insertHeader_at {stored : StoredHeader}
    (hv : stored.header.vaultID = v) (h : s.insertHeader stored = .ok s') :
    L.header stored.header.revision = none ∧ At s v (some { L with
      header := Function.update L.header stored.header.revision (some stored) }) s' := by
  subst hv
  simp only [insertHeader] at h
  split at h
  · cases h
  next hnew =>
  obtain rfl := Except.ok.inj h
  obtain ⟨vault, -, rfl⟩ := Option.map_eq_some_iff.mp hL
  refine ⟨by simpa [ledgerOf] using hnew, At.headers wf hL fun r => ?_⟩
  rw [Table.lookup_insert_eq, Function.update_apply]
  rfl

end

theorem getD_of_none {ν : Type} {t : Table Bytes (Table Nat ν)} (h : t.lookup v = none) :
    t.getD v ∅ = ∅ := by simp [Table.getD, h]

theorem getD_of_some {ν : Type} {t : Table Bytes (Table Nat ν)} {rows : Table Nat ν}
    (h : t.lookup v = some rows) : t.getD v ∅ = rows := by simp [Table.getD, h]

theorem lookup_from {ν : Type} (rows : Table Nat ν) (first r : Nat) :
    (rows.deleteWhere fun existing _ => existing < first).lookup r =
      if r < first then none else rows.lookup r := by
  rw [Table.lookup_deleteWhere]
  cases rows.lookup r <;> by_cases hr : r < first <;> simp [hr, Option.filter]

section
variable (wf : WF s) (hL : s.ledger v = some L)
include wf hL

theorem pruneHeaders_at (keepFrom : Nat) :
    At s v (some { L with header := fun r => if r < keepFrom then none else L.header r })
      (s.pruneHeaders v keepFrom) := by
  have hheader : ∀ r, L.header r = (s.headers.getD v ∅).lookup r := fun r => by
    rw [(ledger_some hL).2]
    rfl
  unfold pruneHeaders
  cases hh : s.headers.lookup v with
  | none =>
    have hsame : (fun r => if r < keepFrom then none else L.header r) = L.header :=
      funext fun r => by simp [hheader, getD_of_none hh]
    rw [hsame]
    exact At.refl wf hL
  | some byRevision =>
    refine At.headers wf hL fun r => ?_
    rw [lookup_from, hheader, getD_of_some hh]

theorem putCiphertext_at (revision : Nat) (ciphertext : Bytes) :
    At s v (some { L with ciphertexts := L.ciphertexts.insert revision ciphertext })
      (s.putCiphertext v revision ciphertext) := by
  obtain ⟨vault, -, rfl⟩ := Option.map_eq_some_iff.mp hL
  simp only [ledgerOf, Finmap.insert_toFinmap]
  exact At.ciphertexts wf hL _

theorem deleteCiphertext_at (revision : Nat) :
    At s v (some { L with ciphertexts := L.ciphertexts.erase revision })
      (s.deleteCiphertext v revision) := by
  have hrows : L.ciphertexts = (s.ciphertexts.getD v ∅).toFinmap := by
    rw [(ledger_some hL).2]
    rfl
  unfold deleteCiphertext
  cases hc : s.ciphertexts.lookup v with
  | none =>
    have hnone : L.ciphertexts.erase revision = L.ciphertexts := by
      rw [hrows, getD_of_none hc]
      rfl
    rw [hnone]
    exact At.refl wf hL
  | some byRevision =>
    rw [hrows, getD_of_some hc, Finmap.erase_toFinmap]
    exact At.ciphertexts wf hL _

/-- What is left of the ciphertexts after those before `revision` are deleted. -/
theorem deleteCiphertextsBefore_at (revision : Nat) : ∃ kept : Finmap (fun _ : Nat => Bytes),
      (∀ r, kept.lookup r = if r < revision then none else L.ciphertexts.lookup r) ∧
      At s v (some { L with ciphertexts := kept }) (s.deleteCiphertextsBefore v revision) := by
  have hrows : ∀ r, L.ciphertexts.lookup r = (s.ciphertexts.getD v ∅).lookup r := fun r => by
    rw [(ledger_some hL).2]
    rfl
  unfold deleteCiphertextsBefore
  cases hc : s.ciphertexts.lookup v with
  | none => exact ⟨L.ciphertexts, fun r => by simp [hrows, getD_of_none hc], At.refl wf hL⟩
  | some byRevision =>
    refine ⟨_, fun r => ?_, At.ciphertexts wf hL _⟩
    rw [Finmap.lookup_toFinmap, lookup_from, hrows, getD_of_some hc]

end

/-! The vault's own row. -/

theorem updateVault_ok (h : s.Stored vault.id) : ∃ s', s.updateVault vault = .ok s' := by
  unfold Stored at h
  unfold updateVault
  rw [if_pos h]
  exact ⟨_, rfl⟩

theorem insertVault_wf (wf : WF s) (hid : opaqueID vault.id = true)
    (howner : ∀ w a, s.vaults.lookup w = some a → a.ownerKey = vault.ownerKey → w = vault.id) :
    WF { s with vaults := s.vaults.insert vault.id vault } := by
  have hst : ∀ w, s.Stored w → State.Stored { s with vaults := s.vaults.insert vault.id vault } w := by
    intro w hw
    unfold Stored at hw ⊢
    simp only [Table.lookup_insert_eq]
    split
    · rfl
    · exact hw
  refine ⟨fun w a ha => ?_, fun w x a b ha hb hab => ?_, wf.devices.mono hst, wf.packages.mono hst,
    wf.pairings.mono hst, wf.checkpoints.mono hst, fun w es hw => hst w (wf.entries w es hw),
    fun w hs hw => hst w (wf.headers w hs hw), fun w cs hw => hst w (wf.ciphertexts w cs hw)⟩
  · rcases Table.lookup_insert_some.mp ha with ⟨rfl, rfl⟩ | ⟨-, ha⟩
    · exact ⟨rfl, hid⟩
    · exact wf.vaults w a ha
  · rcases Table.lookup_insert_some.mp ha with ⟨rfl, rfl⟩ | ⟨-, ha⟩ <;>
      rcases Table.lookup_insert_some.mp hb with ⟨rfl, rfl⟩ | ⟨-, hb⟩
    · rfl
    · exact (howner x b hb hab.symm).symm
    · exact howner w a ha hab
    · exact wf.owners w x a b ha hb hab

theorem ledger_insertVault (vault : Vault) :
    ({ s with vaults := s.vaults.insert vault.id vault } : State).ledger =
      Function.update s.ledger vault.id (some (s.ledgerOf vault.id vault)) := by
  funext w
  rw [Function.update_apply]
  simp only [State.ledger, Table.lookup_insert_eq]
  split
  · next hw =>
    subst hw
    rfl
  · rfl

theorem updateVault_at (h : s.updateVault vault = .ok s') (wf : WF s)
    (hL : s.ledger vault.id = some L) (howner : vault.ownerKey = L.vault.ownerKey) :
    At s vault.id (some { L with vault := vault }) s' := by
  have hold := (ledger_some hL).1
  unfold updateVault at h
  rw [hold] at h
  obtain rfl := Except.ok.inj h
  rw [(ledger_some hL).2]
  exact ⟨insertVault_wf wf (wf.vaults _ _ hold).2 fun w a ha hao =>
    wf.owners w _ a _ ha hold (hao.trans howner), ledger_insertVault vault⟩

/-! Opening and closing a vault. -/

theorem insertVault_at (wf : WF s) (hid : opaqueID vault.id = true)
    (h : s.insertVault vault = .ok s') :
    s.ledger vault.id = none ∧ At s vault.id (some (Ledger.blank vault)) s' := by
  unfold insertVault at h
  split at h
  · cases h
  next hfree =>
  have hnone : s.vaults.lookup vault.id = none := by simpa using hfree
  cases howner : s.vaultByOwner vault.ownerKey with
  | ok other => simp [howner] at h
  | error e =>
    simp only [howner] at h
    obtain rfl := Except.ok.inj h
    have hblank := wf.blank_of_unstored (opaqueID_no_zero hid) (by simp [Stored, hnone]) vault
    refine ⟨ledger_none.mpr hnone, insertVault_wf wf hid fun w a ha hao => ?_,
      hblank ▸ ledger_insertVault vault⟩
    -- no stored vault has this owner
    unfold vaultByOwner at howner
    cases hf : s.vaults.values.find? (fun x => x.ownerKey = vault.ownerKey) with
    | some x => simp [hf] at howner
    | none =>
      have := List.find?_eq_none.mp hf a (Table.mem_values.mpr ⟨w, ha⟩)
      simp [hao] at this

theorem deleteVault_at (wf : WF s) (v : Bytes) : At s v none (s.deleteVault v) := by
  have hst' : ∀ w, s.Stored w ∧ w ≠ v → (s.deleteVault v).Stored w := by
    rintro w ⟨hw, hne⟩
    simpa [Stored, deleteVault, Table.lookup_erase_eq, hne] using hw
  have hkept : ∀ {ν : Type} {t : Table Bytes ν}, (∀ w x, t.lookup w = some x → s.Stored w) →
      ∀ w x, (t.erase v).lookup w = some x → (s.deleteVault v).Stored w := by
    intro ν t ht w x hx
    obtain ⟨hne, hx⟩ := Table.lookup_erase_some.mp hx
    exact hst' w ⟨ht w x hx, hne⟩
  refine ⟨⟨fun w a ha => wf.vaults w a (Table.lookup_erase_some.mp ha).2, fun w x a b ha hb =>
    wf.owners w x a b (Table.lookup_erase_some.mp ha).2 (Table.lookup_erase_some.mp hb).2,
    (wf.devices.deleteVault v).mono hst', (wf.packages.deleteVault v).mono hst',
    (wf.pairings.deleteVault v).mono hst', (wf.checkpoints.deleteVault v).mono hst',
    hkept wf.entries, hkept wf.headers, hkept wf.ciphertexts⟩, funext fun w => ?_⟩
  rw [Function.update_apply]
  split
  · next hw => simp [State.ledger, deleteVault, Table.lookup_erase_eq, hw]
  · next hw =>
    unfold State.ledger
    rw [show (s.deleteVault v).vaults.lookup w = s.vaults.lookup w by simp [deleteVault, hw]]
    cases hl : s.vaults.lookup w with
    | none => rfl
    | some vault =>
      have hz := wf.no_zero (v := w) (by simp [Stored, hl])
      simp only [Option.map_some, ledgerOf, deleteVault, entriesOf, headersOf,
        ciphertextsOf, Table.getD, Table.lookup_erase_eq, if_neg hw,
        wf.devices.lookup_deleteVault (fun _ => wf.no_zero) hz,
        wf.packages.lookup_deleteVault (fun _ => wf.no_zero) hz,
        wf.pairings.lookup_deleteVault (fun _ => wf.no_zero) hz,
        wf.checkpoints.lookup_deleteVault (fun _ => wf.no_zero) hz]

/-! Expiry, in every vault at once. -/

theorem purgeExpired_wf (wf : WF s) (now : Time) : WF (s.purgeExpired now) :=
  { wf with pairings := wf.pairings.deleteWhere _ }

theorem ledger_purgeExpired (now : Time) :
    (s.purgeExpired now).ledger = fun w => (s.ledger w).map (Ledger.expire now) := by
  funext w
  unfold State.ledger
  show (s.vaults.lookup w).map _ = _
  cases s.vaults.lookup w with
  | none => rfl
  | some vault =>
    simp only [Option.map_some, ledgerOf, purgeExpired, Ledger.expire, Table.lookup_deleteWhere]
    congr 2
    funext d
    congr 1
    funext pairing
    by_cases h : now < pairing.expiresAt <;> simp [h]

end State

end Sesame.Syncsvc
