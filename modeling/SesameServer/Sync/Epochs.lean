import SesameServer.Sync.Snapshots
import SesameServer.Sync.Timeline

/- Which epoch the stored ciphertexts are of.

   A ciphertext row has no header of its own once the header was pruned, so the
   epoch it was encrypted under is a fact about the run: `uploadsOf` reads off the
   events what was uploaded to a vault, in order. `Chronicle` ties the ledger to
   it:

   1. `Chronicle.uploaded` — an upload under a new epoch purges every older
      ciphertext, and one under the same epoch leaves only ciphertexts of it.
   2. `Run.chronicle` — so the stored ciphertexts are of the newest epoch in every run.
   3. `ciphertexts_of_newest_epoch` — the same, over the methods of the store. -/
namespace Sesame.Syncsvc
open Syncproto Outcome State Service History

abbrev Upload := Header × Bytes

/-- The uploads to a vault after one more event. -/
def recordUpload (vaultID : Bytes) (uploads : List Upload) : Event → List Upload
  | .ran (.call ⟨_, _, .createVault entry⟩) none _ =>
    if entry.vaultID = vaultID then [] else uploads
  | .ran (.call ⟨_, _, .upload header ciphertext⟩) none _ =>
    if header.vaultID = vaultID then uploads ++ [(header, ciphertext)] else uploads
  | _ => uploads

/-- The uploads accepted for a vault since it was last created, in their order. -/
def uploadsOf (vaultID : Bytes) (events : List Event) : List Upload :=
  events.foldl (recordUpload vaultID) []

variable {svc : Service} {L L' : Ledger} {v : Bytes} {uploads : List Upload}

theorem recordUpload_rejected {event : Event} (h : event.accepted = false) :
    recordUpload v uploads event = uploads := by
  cases event with
  | recovered => rfl
  | ran action error spent =>
    cases error with
    | none => cases h
    | some e => simp [recordUpload]

theorem uploadsOf_rejected {events shown : List Event} (h : ∀ event ∈ shown, event.accepted = false) :
    uploadsOf v (events ++ shown) = uploadsOf v events := by
  unfold uploadsOf
  rw [List.foldl_append]
  generalize events.foldl (recordUpload v) [] = uploads
  induction shown with
  | nil => rfl
  | cons event rest ih =>
    rw [List.foldl_cons, recordUpload_rejected (h event List.mem_cons_self)]
    exact ih fun e he => h e (List.mem_cons_of_mem _ he)

theorem recordUpload_elsewhere {action : Action} {spent : Option SpentNonce}
    (h : action.vaultID ≠ some v) : recordUpload v uploads (.ran action none spent) = uploads := by
  unfold recordUpload
  split
  · next entry _ he =>
    obtain ⟨rfl, _⟩ := Event.ran.inj he
    rw [if_neg fun hv => h (congrArg some hv)]
  · next header _ _ he =>
    obtain ⟨rfl, _⟩ := Event.ran.inj he
    rw [if_neg fun hv => h (congrArg some hv)]
  · rfl

/-- The ledger has kept ciphertexts of the newest epoch only. -/
structure Chronicle (uploads : List Upload) (L : Ledger) : Prop where
  empty : L.vault.currentRevision = 0 → uploads = []
  newest : ∀ stored, L.header L.vault.currentRevision = some stored →
    uploads.getLast?.map Prod.fst = some stored.header
  sorted : uploads.Pairwise fun a b => a.1.vaultEpoch ≤ b.1.vaultEpoch
  kept : ∀ r c, L.ciphertexts.lookup r = some c → ∃ header, (header, c) ∈ uploads ∧
    header.revision = r ∧ ∀ upload ∈ uploads, upload.1.vaultEpoch ≤ header.vaultEpoch

/-- The last upload has the highest epoch. -/
theorem Chronicle.le_newest (h : Chronicle uploads L) {stored : StoredHeader}
    (hs : L.header L.vault.currentRevision = some stored) :
    ∀ upload ∈ uploads, upload.1.vaultEpoch ≤ stored.header.vaultEpoch := by
  obtain ⟨last, hlast, hheader⟩ := Option.map_eq_some_iff.mp (h.newest stored hs)
  obtain ⟨before, rfl⟩ := List.getLast?_eq_some_iff.mp hlast
  rw [← hheader]
  intro upload hm
  rcases List.mem_append.mp hm with hm | hm
  · exact (List.pairwise_append.mp h.sorted).2.2 upload hm last List.mem_cons_self
  · obtain rfl := List.mem_singleton.mp hm
    exact Nat.le_refl _

variable {list : DeviceList}

/-- **An upload keeps the ciphertexts of its own epoch and no others.** -/
theorem Chronicle.uploaded {header : Header} {ciphertext : Bytes} {previous : Option Header}
    {kept : Finmap (fun _ : Nat => Bytes)} {now : Time} (h : Chronicle uploads L)
    (recorded : Recorded svc L list) (available : Available svc L)
    (f : Follows svc L header ciphertext previous) (k : Kept svc L header ciphertext previous kept)
    (hheader : L'.header = storeHeader svc L.header (storedHeader svc L.vault header now))
    (hrevision : L'.vault.currentRevision = header.revision) (hkept : L'.ciphertexts = kept) :
    Chronicle (uploads ++ [(header, ciphertext)]) L' := by
  obtain ⟨_, hnext⟩ := checkedNext_some.mp f.revision
  -- nothing uploaded so far has a higher epoch, and if one has a lower, all are purged
  have hepochs : (∀ upload ∈ uploads, upload.1.vaultEpoch ≤ header.vaultEpoch) ∧
      ∀ r c, r ≠ header.revision → kept.lookup r = some c →
        ∀ upload ∈ uploads, (∀ other ∈ uploads, other.1.vaultEpoch ≤ upload.1.vaultEpoch) →
          header.vaultEpoch ≤ upload.1.vaultEpoch := by
    rcases Nat.eq_zero_or_pos L.vault.currentRevision with hzero | hpos
    · rw [h.empty hzero]
      exact ⟨fun _ hm => (by cases hm), fun _ _ _ _ _ hm => by cases hm⟩
    · obtain ⟨stored, hs⟩ := recorded.current hpos
      have hprevious := f.previous recorded hs
      obtain ⟨_, _, hverified⟩ := f.verified
      rw [hprevious] at hverified
      obtain ⟨_, _, _, hle⟩ := verifyLink_ok.mp (verifyHeader_ok.mp hverified).2.2.2.2.2.1
      refine ⟨fun upload hm => (h.le_newest hs upload hm).trans hle, ?_⟩
      intro r c hr hc upload hm hmax
      by_cases hlt : stored.header.vaultEpoch < header.vaultEpoch
      · have hbound := available.bounded r c (k.old r c hr hc)
        rw [k.purged ⟨stored.header, hprevious, hlt⟩ r (by omega)] at hc
        cases hc
      · obtain ⟨last, hlast, hlh⟩ := Option.map_eq_some_iff.mp (h.newest stored hs)
        have := hmax last (List.mem_of_getLast? hlast)
        rw [hlh] at this
        omega
  obtain ⟨hbelow, hmax⟩ := hepochs
  refine ⟨fun hzero => ?_, fun stored hs => ?_, ?_, fun r c hc => ?_⟩
  · omega
  · rw [hrevision, hheader] at hs
    rcases storeHeader_some.mp hs with ⟨_, rfl⟩ | ⟨hne, _⟩
    · simp [storedHeader]
    · exact absurd rfl hne
  · refine List.pairwise_append.mpr ⟨h.sorted, List.pairwise_singleton _ _, ?_⟩
    intro upload hm new hnew
    rw [List.mem_singleton.mp hnew]
    exact hbelow upload hm
  · rw [hkept] at hc
    simp only [List.mem_append, List.mem_singleton]
    by_cases hr : r = header.revision
    · rw [hr, k.newest] at hc
      obtain rfl := Option.some.inj hc
      refine ⟨header, Or.inr rfl, hr.symm, ?_⟩
      rintro upload (hm | rfl)
      · exact hbelow upload hm
      · exact Nat.le_refl _
    · obtain ⟨old, hm, hrev, hall⟩ := h.kept r c (k.old r c hr hc)
      refine ⟨old, Or.inl hm, hrev, ?_⟩
      rintro upload (hu | rfl)
      · exact hall upload hu
      · exact hmax r c hr hc (old, c) hm hall

theorem Chronicle.moved {call : Call} {spent : Option SpentNonce} (move : Move svc L call L')
    (hid : L.vault.id = v) (recorded : Recorded svc L list) (available : Available svc L)
    (h : Chronicle uploads L) :
    Chronicle (recordUpload v uploads (.ran (.call call) none spent)) L' := by
  cases move with
  | offered | answered | confirmed | cancelled | approved | activated | upgraded
  | checkpointed => exact ⟨h.empty, h.newest, h.sorted, h.kept⟩
  | rekeyed acts isOp =>
    rcases isOp with ⟨rfl, rfl⟩ | ⟨rfl, rfl⟩
    · exact ⟨h.empty, h.newest, h.sorted, h.kept⟩
    · exact ⟨h.empty, h.newest, h.sorted, h.kept⟩
  | uploaded acts activated device follows room =>
    simp only [recordUpload, if_pos (follows.vault.trans hid)]
    exact h.uploaded recorded available follows room rfl rfl rfl

theorem Chronicle.opened {caller : Caller} {entry : DeviceListEntry} {now : Time} :
    Chronicle [] (opening caller entry list now) := by
  refine ⟨fun _ => rfl, fun _ hs => (by cases hs), List.Pairwise.nil, fun r c hc => ?_⟩
  simp [opening, Ledger.blank] at hc

/-- In every run, every stored vault has kept ciphertexts of the newest epoch only. -/
theorem Run.chronicle {events : List Event} {sys : Sys} (run : Run svc Any events sys) :
    ∀ v L, sys.data.ledger v = some L → Chronicle (uploadsOf v events) L := by
  refine Run.traced (Q := fun events book => ∀ v L, book v = some L →
    Chronicle (uploadsOf v events) L) .start run.path (fun v L hL => by cases hL) ?_ ?_
  · intro events book shown hshown h v L hL
    rw [uploadsOf_rejected hshown]
    exact h v L hL
  · intro events sys action tx run hrun _ h v L hL
    rw [List.nil_append] at run
    have hchange := run.change hrun v
    rw [hL] at hchange
    rw [uploadsOf, List.foldl_append, List.foldl_cons, List.foldl_nil]
    generalize hbefore : sys.data.ledger v = before at hchange
    cases hchange with
    | same elsewhere =>
      rw [recordUpload_elsewhere elsewhere]
      exact h v L hbefore
    | expired elsewhere =>
      rw [recordUpload_elsewhere elsewhere]
      have hL := h v _ hbefore
      exact ⟨hL.empty, hL.newest, hL.sorted, hL.kept⟩
    | opened here =>
      simp only [recordUpload, if_pos here]
      exact .opened
    | begun move =>
      obtain ⟨list, _, recorded⟩ := run.recorded.2 v _ hbefore
      have available := run.available.2 v _ hbefore
      have hL := h v _ hbefore
      have hid := run.wf.ledger_id hbefore
      exact Chronicle.moved move hid
        ⟨recorded.range, recorded.row, recorded.link⟩
        ⟨available.fits, available.bounded, available.current⟩
        ⟨hL.empty, hL.newest, hL.sorted, hL.kept⟩
    | moved move =>
      obtain ⟨list, _, recorded⟩ := run.recorded.2 v _ hbefore
      exact (h v _ hbefore).moved move (run.wf.ledger_id hbefore) recorded
        (run.available.2 v _ hbefore)

/-- **Every stored ciphertext is of the newest epoch.** In every run and for every
    stored vault: a ciphertext stored under a revision was uploaded with a header of
    that revision whose epoch is that of the newest accepted header, and no upload
    ever accepted for the vault had a higher one. -/
theorem ciphertexts_of_newest_epoch {events : List Event} {sys : Sys}
    (run : Run svc Any events sys) {vaultID : Bytes} {vault : Vault}
    (stored : sys.data.vaults.lookup vaultID = some vault) {revision : Nat} {ciphertext : Bytes}
    (found : sys.data.ciphertext vaultID revision = .ok ciphertext) :
    ∃ header newest, (header, ciphertext) ∈ uploadsOf vaultID events ∧ header.revision = revision ∧
      (uploadsOf vaultID events).getLast?.map Prod.fst = some newest ∧
      (∃ row, sys.data.latestHeader vaultID = .ok row ∧ row.header = newest) ∧
      header.vaultEpoch = newest.vaultEpoch ∧
      ∀ upload ∈ uploadsOf vaultID events, upload.1.vaultEpoch ≤ header.vaultEpoch := by
  have hL := ledger_of_lookup stored
  have h := run.chronicle _ _ hL
  obtain ⟨header, hm, hrevision, hall⟩ := h.kept _ _ ((ciphertext_ledger hL).mp found)
  obtain ⟨list, _, recorded⟩ := run.recorded.2 _ _ hL
  have hpos : 0 < vault.currentRevision := by
    rcases Nat.eq_zero_or_pos vault.currentRevision with hzero | hpos
    · rw [h.empty hzero] at hm
      cases hm
    · exact hpos
  obtain ⟨row, hrow⟩ := recorded.current hpos
  have hnewest := h.newest row hrow
  obtain ⟨last, hlast, hheader⟩ := Option.map_eq_some_iff.mp hnewest
  refine ⟨header, row.header, hm, hrevision, hnewest, ⟨row, recorded.latestHeader hL hrow, rfl⟩,
    Nat.le_antisymm (h.le_newest hrow _ hm) ?_, hall⟩
  rw [← hheader]
  exact hall last (List.mem_of_getLast? hlast)

namespace Demo

/-- The entry by which device 1, alone in its vault, rotates the epoch. -/
def rotateEntry : DeviceListEntry :=
  signEntry 1
    { vaultID := vaultID, index := 2,
      previousDigest := (createEntry vaultID 1).digest toyCrypto, kind := EntryKind.rotate.text,
      signerDeviceID := deviceID 1, subjectDeviceID := deviceID 1, subjectSigningKey := [],
      subjectPackageKey := [], sealedLabel := [], epochAfter := 2, snapshotFloor := 0,
      signature := [] }

def rotatedHeader : Header :=
  let unsigned : Header :=
    { headerAt 2 (header₁.digest toyCrypto) with
      vaultEpoch := 2, deviceListIndex := 2, deviceListDigest := rotateEntry.digest toyCrypto,
      signature := [] }
  { unsigned with signature := signed 1 unsigned.signingPayload }

/-- Device 1 uploads a snapshot, rotates the epoch and uploads another. -/
def rotates : List Action :=
  created ++
    [.call (call 1 1000 2 (.upload header₁ (snapshotAt 1))),
     .call (call 1 1000 3 (.rotate rotateEntry [])),
     .call (call 1 1000 4 (.upload rotatedHeader (snapshotAt 2)))]

theorem rotates_stored :
    ((execAll (service (still 1000)) rotates start).2.data.vaults.lookup vaultID).isSome = true := by
  decide +kernel

theorem ciphertexts_of_newest_epoch_rotates : (∃ header newest, (header, snapshotAt 2) ∈
      uploadsOf vaultID (execAll (service (still 1000)) rotates start).1 ∧ header.revision = 2 ∧
      header.vaultEpoch = newest.vaultEpoch ∧ (∃ row, (execAll (service (still 1000)) rotates
        start).2.data.latestHeader vaultID = .ok row ∧ row.header = newest)) ∧
    (execAll (service (still 1000)) rotates start).2.data.ciphertext vaultID 1 =
      .error (.is .notFound) := by
  have hlast : (execAll (service (still 1000)) rotates start).2.data.ciphertext vaultID 2 =
      .ok (snapshotAt 2) := by decide +kernel
  have hpurged : (execAll (service (still 1000)) rotates start).2.data.ciphertext vaultID 1 =
      .error (.is .notFound) := by decide +kernel
  obtain ⟨vault, hvault⟩ := Option.isSome_iff_exists.mp rotates_stored
  obtain ⟨header, newest, hm, hrevision, hnewest, hrow, hepoch, _⟩ :=
    ciphertexts_of_newest_epoch (execAll_start _ rotates) hvault hlast
  exact ⟨⟨header, newest, hm, hrevision, hepoch, hrow⟩, hpurged⟩

end Demo

end Sesame.Syncsvc
