import SesameServer.Sync.Agreement

/- Whether a vault always has a device that can act.

   `Remove` lets a device remove itself, and nothing refuses that to the last one:
   the list accepts the entry of a current member, and `rekey` expects a package
   for every survivor, of which there is none. The vault then stays, no device can
   act on it, and its owner cannot create another (`last_device_leaves`). Without
   such a step every stored vault has an approved device (`vault_has_device`). -/
namespace Sesame.Syncsvc
open Syncproto Outcome State Service DeviceList

def Ledger.Attended (L : Ledger) : Prop := ∃ d row, L.device d = some row ∧ row.state = .approved

/-- An accepted `Remove` by which the only approved device of a vault removes itself. -/
def LastLeaves (svc : Service) (sys : Sys) (action : Action) : Prop :=
  ∃ caller request entry packages, action = .call ⟨caller, request, .remove entry packages⟩ ∧
    (exec svc action sys).1.accepted = true ∧ entry.subjectDeviceID = entry.signerDeviceID ∧
    ∀ row ∈ sys.data.devicesOf entry.vaultID, row.state = .approved →
      row.deviceID = entry.subjectDeviceID

variable {svc : Service} {L L' : Ledger}

theorem attended_update {device : Bytes → Option Device} {d₀ : Bytes} {row₀ : Device}
    (h : row₀.state = .approved) :
    ∃ d row, Function.update device d₀ (some row₀) d = some row ∧ row.state = .approved :=
  ⟨d₀, row₀, Function.update_self _ _ _, h⟩

/-- An approved device that a rekey does not remove stays approved. -/
theorem attended_rekeyed {actor : Actor} {kind : EntryKind} {entry : DeviceListEntry} {d : Bytes}
    {row : Device} (hr : L.device d = some row) (hid : row.deviceID = d)
    (hstate : row.state = .approved) (hstay : kind = .remove → d ≠ entry.subjectDeviceID) :
    ∃ d row, (L.device d).map (rekeyed actor kind entry) = some row ∧ row.state = .approved := by
  refine ⟨d, rekeyed actor kind entry row, by rw [hr]; rfl, ?_⟩
  rw [(rekeyed_fields actor kind entry row).2.2.2.2.2, if_neg, hstate]
  rintro ⟨hk, hsub⟩
  exact hstay hk (hid.symm.trans hsub)

/-- Every move leaves an approved device, unless the last one removes itself. -/
theorem attended_moved {call : Call} (move : Move svc L call L') (h : L.Attended)
    (ids : ∀ d row, L.device d = some row → row.deviceID = d)
    (hlast : ∀ caller request entry packages, call = ⟨caller, request, .remove entry packages⟩ →
      entry.vaultID = L.vault.id → entry.subjectDeviceID = entry.signerDeviceID →
      ∃ d row, L.device d = some row ∧ row.state = .approved ∧ d ≠ entry.subjectDeviceID) :
    L'.Attended := by
  cases move with
  | offered | answered | confirmed | cancelled | uploaded | checkpointed => exact h
  | approved => exact attended_update rfl
  | activated acts approved => exact attended_update (requireApproved_ok approved).2
  | upgraded acts appends => exact attended_update (requireActivated_ok appends.activated).2.1
  | @rekeyed _ _ _ _ entry _ _ _ _ acts isOp appends =>
    obtain ⟨hpairing, hstate, _⟩ := requireActivated_ok appends.activated
    have hactor := acts.row hpairing
    rcases isOp with ⟨rfl, rfl⟩ | ⟨rfl, rfl⟩
    · by_cases hself : entry.subjectDeviceID = entry.signerDeviceID
      · obtain ⟨d, row, hr, happroved, hne⟩ := hlast _ _ _ _ rfl appends.vault hself
        exact attended_rekeyed hr (ids d row hr) happroved fun _ => hne
      · -- the actor removes another device and stays
        refine attended_rekeyed hactor rfl hstate fun _ he => hself ?_
        rw [appends.signer, he]
    · exact attended_rekeyed hactor rfl hstate fun hk => by cases hk

/-- **A vault is never left without a device, except by its last device.** In every
    run in which no last approved device removes itself, every stored vault has an
    approved device. -/
theorem vault_has_device {events : List Event} {sys : Sys}
    (run : Run svc (fun sys action => ¬LastLeaves svc sys action) events sys) {vaultID : Bytes}
    {vault : Vault} (stored : sys.data.vaults.lookup vaultID = some vault) :
    ∃ row ∈ sys.data.devicesOf vaultID, row.state = .approved := by
  have hinv : State.WF sys.data ∧ ∀ v L, sys.data.ledger v = some L →
      (∃ list, Agrees svc.crypto L list) ∧ L.Attended := by
    refine run.holds fun sys action book' wf hmeets haccepted h hstep v L' hL' => ?_
    refine ⟨Agrees.step hstep (fun v L hL => (h v L hL).1) v L' hL', ?_⟩
    have hexpired : ∀ now w L, (sys.data.ledger w).map (Ledger.expire now) = some L → L.Attended := by
      intro now w L hL
      obtain ⟨L₀, h₀, rfl⟩ := Option.map_eq_some_iff.mp hL
      exact (h w L₀ h₀).2
    cases hstep with
    | opened =>
      rw [Function.update_apply] at hL'
      split at hL'
      · obtain rfl := Option.some.inj hL'
        exact attended_update rfl
      · exact (h v L' hL').2
    | begun stored move =>
      rw [Function.update_apply] at hL'
      split at hL'
      · obtain rfl := Option.some.inj hL'
        obtain ⟨⟨_, hagrees⟩, hattended⟩ := h _ _ stored
        exact attended_moved move hattended hagrees.ids fun _ _ _ _ hcall => by cases hcall
      · exact hexpired _ v L' hL'
    | moved stored move =>
      rw [Function.update_apply] at hL'
      split at hL'
      · obtain rfl := Option.some.inj hL'
        obtain ⟨⟨list, hagrees⟩, hattended⟩ := h _ _ stored
        refine attended_moved move hattended hagrees.ids ?_
        rintro caller request entry packages rfl hvault hself
        by_contra hnone
        push Not at hnone
        refine hmeets ⟨caller, request, entry, packages, rfl, haccepted, hself, fun row hrow hs => ?_⟩
        rw [hvault, wf.ledger_id stored] at hrow
        exact hnone _ row ((mem_devicesOf wf stored).mp hrow) hs
      · exact (h v L' hL').2
    | reset | adminReset =>
      rw [Function.update_apply] at hL'
      split at hL'
      · cases hL'
      · exact (h v L' hL').2
    | maintained => exact hexpired _ v L' hL'
  have hL := ledger_of_lookup stored
  obtain ⟨list, hagrees⟩ := (hinv.2 _ _ hL).1
  obtain ⟨d, row, hr, hstate⟩ := (hinv.2 _ _ hL).2
  exact ⟨row, (mem_devicesOf hinv.1 hL).mpr (by rw [hagrees.ids d row hr]; exact hr), hstate⟩

namespace Demo

/-- The entry by which device 1 removes itself from its own vault. -/
def leaveEntry : DeviceListEntry :=
  signEntry 1
    { vaultID := vaultID, index := 2,
      previousDigest := (createEntry vaultID 1).digest toyCrypto, kind := EntryKind.remove.text,
      signerDeviceID := deviceID 1, subjectDeviceID := deviceID 1, subjectSigningKey := [],
      subjectPackageKey := [], sealedLabel := [], epochAfter := 2, snapshotFloor := 0,
      signature := [] }

/-- Device 1 creates the vault, removes itself, and then tries to reset the vault
    and to create another. -/
def leaves : List Action :=
  created ++ [.call (call 1 1000 2 (.remove leaveEntry [])), .call (call 1 1000 3 (.reset 2)),
    .call (call 1 1000 4 (.createVault (createEntry (utf8 "demo-vault-00002") 1)))]

/-- The vault of `leaves` stays stored, with no approved device, while the owner can
    neither reset nor replace it. -/
theorem last_device_leaves :
    Run (service (still 1000)) Any (execAll (service (still 1000)) leaves start).1
      (execAll (service (still 1000)) leaves start).2 ∧
    (execAll (service (still 1000)) leaves start).1.map Event.accepted =
      [true, true, false, false] ∧
    ((execAll (service (still 1000)) leaves start).2.data.vaults.lookup vaultID).isSome = true ∧
    ∀ row ∈ (execAll (service (still 1000)) leaves start).2.data.devicesOf vaultID,
      row.state ≠ .approved :=
  ⟨execAll_start _ leaves, by decide +kernel, by decide +kernel, by decide +kernel⟩

/-- Device 1 removes device 2 and stays. -/
theorem vault_has_device_removed :
    (execAll (service (still 1000)) removed start).1.all Event.accepted = true ∧
    ∃ row ∈ (execAll (service (still 1000)) removed start).2.data.devicesOf vaultID,
      row.state = .approved := by
  obtain ⟨vault, hvault⟩ := Option.isSome_iff_exists.mp removed_stored
  refine ⟨by decide +kernel,
    vault_has_device (execAll_run removed (fun sys action ha => ?_) .start) hvault⟩
  rintro ⟨_, _, entry, _, rfl, _, hself, _⟩
  have hentry : entry = removeEntry := by
    simp [removed, paired, created, call, callAs, removal] at ha
    exact ha.2.2.1
  rw [hentry] at hself
  exact absurd hself (by decide)

end Demo

end Sesame.Syncsvc
