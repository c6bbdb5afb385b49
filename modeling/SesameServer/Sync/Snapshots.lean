import SesameServer.Sync.History
import SesameServer.Sync.Tokens

/- The newest snapshot is always there.

   An upload deletes ciphertexts in two places: to make room, and after a change
   of epoch. `Available` says that neither ever takes the newest one: its
   ciphertext is stored, is the one its header was made for, and all of them
   together stay within the budget. So `Snapshot` answers every approved device
   (`snapshot_run`, `snapshot_available`). -/
namespace Sesame.Syncsvc
open Syncproto Outcome State Service DeviceList

/-- The current revision has a header and the ciphertext the header was made for,
    within the budget, and nothing is stored beyond it. -/
structure Available (svc : Service) (L : Ledger) : Prop where
  fits : L.ciphertexts.sumBy List.length ≤ svc.byteBudget
  bounded : ∀ r c, L.ciphertexts.lookup r = some c → r ≤ L.vault.currentRevision
  current : 0 < L.vault.currentRevision → ∃ stored ciphertext,
    L.header L.vault.currentRevision = some stored ∧
    L.ciphertexts.lookup L.vault.currentRevision = some ciphertext ∧
    stored.header.verifyCiphertext svc.crypto ciphertext = .ok ()

variable {svc : Service} {L L' : Ledger} {caller : Caller}

/-- **An upload replaces the newest snapshot.** -/
theorem Available.uploaded {header : Header} {ciphertext : Bytes} {previous : Option Header}
    {kept : Finmap (fun _ : Nat => Bytes)} {now : Time} (h : Available svc L)
    (f : Follows svc L header ciphertext previous) (k : Kept svc L header ciphertext previous kept)
    (hheader : L'.header = storeHeader svc L.header (storedHeader svc L.vault header now))
    (hrevision : L'.vault.currentRevision = header.revision) (hkept : L'.ciphertexts = kept) :
    Available svc L' := by
  obtain ⟨_, hnext⟩ := checkedNext_some.mp f.revision
  refine ⟨by rw [hkept]; exact k.fits, fun r c hc => ?_, fun _ => ?_⟩
  · rw [hkept] at hc
    rw [hrevision]
    by_cases hr : r = header.revision
    · exact Nat.le_of_eq hr
    · have := h.bounded r c (k.old r c hr hc)
      omega
  · rw [hrevision, hheader, hkept]
    exact ⟨_, ciphertext, storeHeader_some.mpr (Or.inl ⟨rfl, rfl⟩), k.newest, f.ciphertext⟩

theorem Available.moved {call : Call} (move : Move svc L call L') (h : Available svc L) :
    Available svc L' := by
  cases move with
  | offered | answered | confirmed | cancelled | approved | activated | rekeyed | upgraded
  | checkpointed => exact ⟨h.fits, h.bounded, h.current⟩
  | uploaded acts activated device follows room => exact h.uploaded follows room rfl rfl rfl

theorem Available.opened {entry : DeviceListEntry} {list : DeviceList} {now : Time} :
    Available svc (opening caller entry list now) := by
  refine ⟨Nat.zero_le _, fun r c hc => ?_, fun hpos => absurd hpos (Nat.lt_irrefl 0)⟩
  simp [opening, Ledger.blank] at hc

/-- In every run, every stored vault's newest snapshot is available. -/
theorem Run.available {P : Sys → Action → Prop} {events : List Event} {sys : Sys}
    (run : Run svc P events sys) :
    WF sys.data ∧ ∀ v L, sys.data.ledger v = some L → Available svc L :=
  run.holds fun _ _ _ _ _ _ h hstep => hstep.forall (fun _ _ _ _ _ _ => .opened)
    (fun _ _ hL => ⟨hL.fits, hL.bounded, hL.current⟩) (fun _ _ _ _ hmove hL => hL.moved hmove) h

/-- **`Snapshot` answers an approved device** with the current header and ciphertext. -/
theorem snapshot_run {tx : Tx} {v d : Bytes} {row : Device} {stored : StoredHeader}
    {ciphertext : Bytes} (ht : L.Tokens) (wf : WF tx.data) (hL : tx.data.ledger v = some L)
    (hr : L.device d = some row) (hstate : row.state = .approved)
    (hpos : 0 < L.vault.currentRevision) (hheader : L.header L.vault.currentRevision = some stored)
    (hciphertext : L.ciphertexts.lookup L.vault.currentRevision = some ciphertext)
    (calls : Calls caller L.vault row) :
    svc.snapshot caller tx = .ok ⟨stored, ciphertext, L.vault⟩ tx := by
  have hactor : svc.actorFor caller tx = .ok ⟨L.vault, row, none⟩ tx :=
    ht.actorFor wf hL hr (by rw [hstate]; decide) calls
  have happroved : requireApproved ⟨L.vault, row, none⟩ = .ok () := by
    simp [requireApproved, check_ok, hstate]
  have hid := wf.ledger_id hL
  have hquery : tx.data.header L.vault.id L.vault.currentRevision = .ok stored := by
    rw [hid]
    exact (header_ledger hL).mpr hheader
  have hquery' : tx.data.ciphertext L.vault.id L.vault.currentRevision = .ok ciphertext := by
    rw [hid]
    exact (ciphertext_ledger hL).mpr hciphertext
  unfold snapshot
  rw [bind_run hactor, bind_run (lift_ok.mpr ⟨happroved, rfl⟩),
    bind_run (refuse_run (by simp only; omega)), bind_run (query_run hquery),
    bind_run (query_run hquery')]
  rfl

/-- **The newest snapshot is always available.** In every run, the ciphertexts of a
    stored vault fit the budget and none is beyond its current revision; and once
    something was uploaded, the current revision has a header and the ciphertext
    it was made for, and `Snapshot` returns both to every approved device. -/
theorem snapshot_available {events : List Event} {sys : Sys} (run : Run svc Any events sys)
    {vaultID : Bytes} {vault : Vault} (stored : sys.data.vaults.lookup vaultID = some vault) :
    sys.data.ciphertextBytes vaultID ≤ svc.byteBudget ∧
    (∀ r c, sys.data.ciphertext vaultID r = .ok c → r ≤ vault.currentRevision) ∧
    (0 < vault.currentRevision → ∃ row ciphertext,
      sys.data.header vaultID vault.currentRevision = .ok row ∧
      sys.data.ciphertext vaultID vault.currentRevision = .ok ciphertext ∧
      row.header.verifyCiphertext svc.crypto ciphertext = .ok () ∧
      ∀ device ∈ sys.data.devicesOf vaultID, device.state = .approved →
        ∀ caller, Calls caller vault device →
          svc.snapshot caller ⟨sys.data, sys.ticks, none⟩ =
            .ok ⟨row, ciphertext, vault⟩ ⟨sys.data, sys.ticks, none⟩) := by
  obtain ⟨wf, havailable⟩ := run.available
  have hL := ledger_of_lookup stored
  have h := havailable _ _ hL
  refine ⟨?_, fun r c hc => h.bounded r c ((ciphertext_ledger hL).mp hc), fun hpos => ?_⟩
  · have hfits := h.fits
    simp only [ledgerOf, Finmap.sumBy_toFinmap] at hfits
    exact hfits
  · obtain ⟨row, ciphertext, hheader, hciphertext, hverified⟩ := h.current hpos
    refine ⟨row, ciphertext, (header_ledger hL).mpr hheader, (ciphertext_ledger hL).mpr hciphertext,
      hverified, fun device hdevice hstate caller hcalls => ?_⟩
    exact snapshot_run (run.tokens.2 _ _ hL) wf hL ((mem_devicesOf wf hL).mp hdevice) hstate hpos
      hheader hciphertext hcalls

namespace Demo

theorem snapshot_available_uploads :
    ∃ row, (execAll (service (still 1000)) uploads start).2.data.header vaultID 3 = .ok row ∧
      row.header.verifyCiphertext toyCrypto (snapshotAt 3) = .ok () := by
  obtain ⟨vault, hvault, hrevision⟩ := Option.map_eq_some_iff.mp uploads_revision
  have hlast : (execAll (service (still 1000)) uploads start).2.data.ciphertext vaultID 3 =
      .ok (snapshotAt 3) := by decide +kernel
  obtain ⟨_, _, hcurrent⟩ := snapshot_available (execAll_start _ uploads) hvault
  obtain ⟨row, ciphertext, hheader, hciphertext, hverified, _⟩ := hcurrent (by omega)
  rw [hrevision] at hheader hciphertext
  rw [hlast] at hciphertext
  obtain rfl := Except.ok.inj hciphertext
  exact ⟨row, hheader, hverified⟩

end Demo

end Sesame.Syncsvc
