import SesameServer.Sync.Agreement

/- The history of a vault's snapshots.

   An upload stores one header and prunes the oldest. `Recorded` says what is
   left in between: an unbroken row of headers that ends at the current revision,
   each with its own digest and receipt, and each still good under the device
   list as it stands now, however far the list has grown since.

   1. `storeHeader_range` — an upload moves the row of kept revisions on by one.
   2. `Follows.previous` — the header an upload was checked against is the
      current one.
   3. `Recorded.moved` — every move keeps the history.
   4. `headers_recorded` — so it holds in every run. -/
namespace Sesame.Syncsvc
open Syncproto Outcome State Service DeviceList

/-- The revision is one of the last `headerRetention`. -/
def Retained (svc : Service) (current r : Nat) : Prop :=
  1 ≤ r ∧ current < r + svc.headerRetention ∧ r ≤ current

/-- The headers of a ledger are the last ones of a chain that verifies. -/
structure Recorded (svc : Service) (L : Ledger) (list : DeviceList) : Prop where
  range : ∀ r, (L.header r).isSome = true ↔ Retained svc L.vault.currentRevision r
  row : ∀ r stored, L.header r = some stored → stored.header.revision = r ∧
    stored = storedHeader svc L.vault stored.header stored.acceptedAt ∧
    verifyHeader svc.crypto list none stored.header = .ok ()
  link : ∀ r a b, L.header r = some a → L.header (r + 1) = some b →
    verifyLink svc.crypto a.header b.header = .ok ()

variable {svc : Service} {L L' : Ledger} {list list' : DeviceList} {caller : Caller}
  {entry : DeviceListEntry} {actor : Actor} {kind : EntryKind}

/-- The current revision has a header, unless nothing was uploaded yet. -/
theorem Recorded.current (h : Recorded svc L list) (hpos : 0 < L.vault.currentRevision) :
    ∃ stored, L.header L.vault.currentRevision = some stored :=
  Option.isSome_iff_exists.mp ((h.range _).mpr
    ⟨hpos, Nat.lt_add_of_pos_right svc.headerRetention_pos, Nat.le_refl _⟩)

variable {stored : StoredHeader}

/-- A stored header that no other outranks is the current one. -/
theorem Recorded.latest (h : Recorded svc L list) {latest : StoredHeader}
    (hs : L.header L.vault.currentRevision = some stored) (hr : ∃ r, L.header r = some latest)
    (hmax : ∀ r other, L.header r = some other → other.header.revision ≤ latest.header.revision) :
    latest = stored := by
  obtain ⟨r, hr⟩ := hr
  have hle := hmax _ stored hs
  rw [(h.row _ _ hs).1, (h.row _ _ hr).1] at hle
  have hretained := (h.range r).mp (Option.isSome_iff_exists.mpr ⟨latest, hr⟩)
  have heq : r = L.vault.currentRevision := Nat.le_antisymm hretained.2.2 hle
  rw [heq, hs] at hr
  exact (Option.some.inj hr).symm

/-- **The header before an upload is the current one.** -/
theorem Follows.previous {header : Header} {ciphertext : Bytes} {previous : Option Header}
    (f : Follows svc L header ciphertext previous) (h : Recorded svc L list)
    (hs : L.header L.vault.currentRevision = some stored) : previous = some stored.header := by
  have hretained := (h.range _).mp (Option.isSome_iff_exists.mpr ⟨stored, hs⟩)
  rcases f.latest with ⟨hzero, _⟩ | ⟨_, latest, hprevious, _, hr, hmax⟩
  · have := hretained.1
    omega
  · rw [hprevious, h.latest hs hr hmax]

/-- `LatestHeader` finds the current header. -/
theorem Recorded.latestHeader {s : State} {v : Bytes} (h : Recorded svc L list)
    (hL : s.ledger v = some L) (hs : L.header L.vault.currentRevision = some stored) :
    s.latestHeader v = .ok stored := by
  cases hlatest : s.latestHeader v with
  | ok latest =>
    obtain ⟨hr, hmax⟩ := latestHeader_ok hL hlatest
    rw [h.latest hs hr hmax]
  | error e =>
    unfold State.latestHeader at hlatest
    cases hfold : (s.headersOf v).values.foldl laterHeader none with
    | some best => simp [hfold] at hlatest
    | none =>
      rw [(ledger_some hL).2] at hs
      have hmem : stored ∈ (s.headersOf v).values := Table.mem_values.mpr ⟨_, hs⟩
      rw [(foldl_laterHeader_none _ _ hfold).2] at hmem
      cases hmem

/-- What pruning leaves: the new header, and the old ones that are still retained. -/
theorem storeHeader_some {headers : Nat → Option StoredHeader} {new : StoredHeader} {r : Nat} :
    storeHeader svc headers new r = some stored ↔
      (r = new.header.revision ∧ stored = new) ∨
      (r ≠ new.header.revision ∧ headers r = some stored ∧
        (svc.headerRetention < new.header.revision →
          new.header.revision < r + svc.headerRetention)) := by
  have hpos := svc.headerRetention_pos
  unfold storeHeader
  by_cases hr : r = new.header.revision
  · rw [if_neg (by omega), hr, Function.update_self]
    simp [eq_comm]
  · rw [Function.update_of_ne hr]
    split
    · simp only [reduceCtorEq, hr, false_and, false_or, false_iff, not_and]
      omega
    · simp only [hr, false_and, ne_eq, not_false_eq_true, true_and, false_or, iff_self_and]
      omega

theorem storeHeader_range {headers : Nat → Option StoredHeader} {new : StoredHeader}
    {current : Nat} (hrange : ∀ r, (headers r).isSome = true ↔ Retained svc current r)
    (hnext : new.header.revision = current + 1) (r : Nat) :
    (storeHeader svc headers new r).isSome = true ↔ Retained svc new.header.revision r := by
  have hpos := svc.headerRetention_pos
  simp only [Option.isSome_iff_exists, storeHeader_some] at hrange ⊢
  constructor
  · rintro ⟨stored, ⟨hr, _⟩ | ⟨hne, hs, hkept⟩⟩
    · exact ⟨by omega, by omega, by omega⟩
    · obtain ⟨h₁, h₂, h₃⟩ := (hrange r).mp ⟨stored, hs⟩
      refine ⟨h₁, ?_, by omega⟩
      by_cases hfull : svc.headerRetention < new.header.revision
      · exact hkept hfull
      · omega
  · rintro ⟨h₁, h₂, h₃⟩
    by_cases hr : r = new.header.revision
    · exact ⟨new, Or.inl ⟨hr, rfl⟩⟩
    · obtain ⟨stored, hs⟩ := (hrange r).mpr ⟨h₁, by omega, by omega⟩
      exact ⟨stored, Or.inr ⟨hr, hs, fun _ => h₂⟩⟩

theorem Recorded.grown (h : Recorded svc L list) (ha : Agrees svc.crypto L list)
    (a : Appends svc L actor kind entry list') (hheader : L'.header = L.header)
    (hrevision : L'.vault.currentRevision = L.vault.currentRevision)
    (hid : L'.vault.id = L.vault.id) : Recorded svc L' list' := by
  obtain ⟨_, _, hindex, g⟩ := ha.grown a
  refine ⟨by rw [hheader, hrevision]; exact h.range, fun r stored hs => ?_,
    by rw [hheader]; exact h.link⟩
  rw [hheader] at hs
  obtain ⟨hr, hstored, hverified⟩ := h.row r stored hs
  refine ⟨hr, ?_, verifyHeader_grows g hindex ha.wf hverified⟩
  rw [hstored]
  simp only [storedHeader, receiptFor, hid]

/-- **An upload adds to the history.** -/
theorem Recorded.uploaded {header : Header} {ciphertext : Bytes} {previous : Option Header}
    {now : Time} (h : Recorded svc L list) (ha : Agrees svc.crypto L list)
    (f : Follows svc L header ciphertext previous)
    (hheader : L'.header = storeHeader svc L.header (storedHeader svc L.vault header now))
    (hrevision : L'.vault.currentRevision = header.revision)
    (hid : L'.vault.id = L.vault.id) : Recorded svc L' list := by
  obtain ⟨_, hnext⟩ := checkedNext_some.mp f.revision
  obtain ⟨l, hload, hverified⟩ := f.verified
  rw [(loads_iff ha.verified).mp hload] at hverified
  have hrow : ∀ r stored, L'.header r = some stored →
      (r = header.revision ∧ stored = storedHeader svc L.vault header now) ∨
      (r ≠ header.revision ∧ L.header r = some stored) := by
    intro r stored hs
    rw [hheader] at hs
    rcases storeHeader_some.mp hs with ⟨hr, rfl⟩ | ⟨hr, hs, _⟩
    · exact Or.inl ⟨hr, rfl⟩
    · exact Or.inr ⟨hr, hs⟩
  have hold : ∀ r stored, L.header r = some stored → r ≤ L.vault.currentRevision :=
    fun r stored hs => ((h.range r).mp (Option.isSome_iff_exists.mpr ⟨stored, hs⟩)).2.2
  refine ⟨fun r => ?_, fun r stored hs => ?_, fun r a b hra hrb => ?_⟩
  · rw [hheader, hrevision]
    exact storeHeader_range h.range hnext r
  · have hvault : ∀ header now,
        storedHeader svc L'.vault header now = storedHeader svc L.vault header now := by
      intro header now
      simp only [storedHeader, receiptFor, hid]
    rw [hvault]
    rcases hrow r stored hs with ⟨rfl, rfl⟩ | ⟨_, hs⟩
    · exact ⟨rfl, rfl, verifyHeader_alone hverified⟩
    · exact h.row r stored hs
  · rcases hrow r a hra with ⟨rfl, rfl⟩ | ⟨_, ha'⟩
    · -- nothing follows the new header
      rcases hrow _ b hrb with ⟨hb, _⟩ | ⟨_, hb⟩
      · omega
      · have := hold _ b hb
        omega
    · rcases hrow _ b hrb with ⟨hb, rfl⟩ | ⟨_, hb⟩
      · have hcurrent : r = L.vault.currentRevision := by omega
        rw [hcurrent] at ha'
        rw [f.previous h ha'] at hverified
        exact (verifyHeader_ok.mp hverified).2.2.2.2.2.1
      · exact h.link r a b ha' hb

/-- **Every move keeps the history.** -/
theorem Recorded.moved {call : Call} (move : Move svc L call L') (ha : Agrees svc.crypto L list)
    (ha' : Agrees svc.crypto L' list') (h : Recorded svc L list) : Recorded svc L' list' := by
  have hlist : ∀ l, verifyDeviceList svc.crypto L'.entries = .ok l → l = list' :=
    fun l hl => Except.ok.inj (hl.symm.trans ha'.verified)
  cases move with
  | offered | answered | confirmed | cancelled | activated | checkpointed =>
    obtain rfl := hlist list ha.verified
    exact ⟨h.range, h.row, h.link⟩
  | approved acts appends | rekeyed acts isOp appends | upgraded acts appends =>
    obtain rfl := hlist _ (ha.grown appends).1
    exact h.grown ha appends rfl rfl rfl
  | uploaded acts activated device follows =>
    obtain rfl := hlist list ha.verified
    exact h.uploaded ha follows rfl rfl rfl

theorem Recorded.opened {now : Time} : Recorded svc (opening caller entry list now) list := by
  refine ⟨fun r => ?_, fun _ _ hs => (by cases hs), fun _ _ _ hs => (by cases hs)⟩
  simp only [opening, Ledger.blank, Retained, Option.isSome_none, Bool.false_eq_true, false_iff]
  omega

/-- In every run, every stored vault's ledger agrees with its list and has its history. -/
theorem Run.recorded {P : Sys → Action → Prop} {events : List Event} {sys : Sys}
    (run : Run svc P events sys) : WF sys.data ∧ ∀ v L, sys.data.ledger v = some L →
      ∃ list, Agrees svc.crypto L list ∧ Recorded svc L list :=
  run.agreed (fun _ _ _ _ => .opened) (fun _ _ _ hs => ⟨hs.range, hs.row, hs.link⟩)
    fun _ _ _ _ _ hmove ha ha' hs => hs.moved hmove ha ha'

theorem receipt_verifies (signs : Signs svc.crypto svc.receiptKey) (receipt : ReceiptV3) :
    ∃ signature, decodeCanonical (Encoding.encode (receipt.sign svc.crypto svc.receiptKey))
        ed25519SignatureBytes = .ok signature ∧
      receipt.verify svc.crypto (svc.crypto.publicKey svc.receiptKey) signature = true := by
  obtain ⟨hlength, hverify⟩ := signs receipt.signingPayload
  refine ⟨receipt.sign svc.crypto svc.receiptKey, decodeCanonical_encode hlength, ?_⟩
  simp [ReceiptV3.verify, ReceiptV3.sign, hlength, hverify]

/-- **The history is unbroken.** In every run, the stored headers of a stored vault
    are its last `headerRetention` revisions; each verifies against the stored
    device list and after its predecessor, has its own digest, and has a receipt
    that verifies under the instance key. -/
theorem headers_recorded (signs : Signs svc.crypto svc.receiptKey) {events : List Event} {sys : Sys}
    (run : Run svc Any events sys) {vaultID : Bytes} {vault : Vault}
    (stored : sys.data.vaults.lookup vaultID = some vault) :
    ∃ list, loadList svc.crypto sys.data vaultID = .ok list ∧
      (∀ r, (∃ row, sys.data.header vaultID r = .ok row) ↔
        max 1 (vault.currentRevision - svc.headerRetention + 1) ≤ r ∧ r ≤ vault.currentRevision) ∧
      (∀ r a b, sys.data.header vaultID r = .ok a → sys.data.header vaultID (r + 1) = .ok b →
        verifyLink svc.crypto a.header b.header = .ok () ∧
        verifyHeader svc.crypto list (some a.header) b.header = .ok ()) ∧
      ∀ r row, sys.data.header vaultID r = .ok row → row.header.revision = r ∧
        verifyHeader svc.crypto list none row.header = .ok () ∧
        row.digest = row.header.digest svc.crypto ∧
        ∃ signature, decodeCanonical row.receipt ed25519SignatureBytes = .ok signature ∧
          ReceiptV3.verify svc.crypto ⟨vaultID, r, row.digest, row.header.vaultEpoch,
            toUint64 (unixSeconds row.acceptedAt)⟩ (svc.crypto.publicKey svc.receiptKey)
            signature = true := by
  obtain ⟨wf, hrecorded⟩ := run.recorded
  have hL := ledger_of_lookup stored
  have hid := wf.ledger_id hL
  obtain ⟨list, ha, h⟩ := hrecorded _ _ hL
  refine ⟨list, (loads_iff ha.verified).mpr rfl, fun r => ?_, fun r a b hra hrb => ?_,
    fun r row hr => ?_⟩
  · simp only [header_ledger hL, ← Option.isSome_iff_exists, h.range, Retained]
    have hpos := svc.headerRetention_pos
    show _ ∧ vault.currentRevision < _ ∧ _ ≤ vault.currentRevision ↔ _
    omega
  · rw [header_ledger hL] at hra hrb
    have hlink := h.link r a b hra hrb
    obtain ⟨h₁, h₂, h₃, h₄, h₅, _, h₇⟩ := verifyHeader_ok.mp (h.row _ b hrb).2.2
    exact ⟨hlink, verifyHeader_ok.mpr ⟨h₁, h₂, h₃, h₄, h₅, hlink, h₇⟩⟩
  · rw [header_ledger hL] at hr
    obtain ⟨hrevision, hrow, hverified⟩ := h.row r row hr
    have hdigest : row.digest = row.header.digest svc.crypto := by rw [hrow]; rfl
    refine ⟨hrevision, hverified, hdigest, ?_⟩
    obtain ⟨signature, hdecode, hverify⟩ := receipt_verifies signs
      (svc.receiptFor (sys.data.ledgerOf vaultID vault).vault row.header row.acceptedAt)
    refine ⟨signature, by rw [hrow]; exact hdecode, ?_⟩
    simp only [receiptFor, hid, hrevision, ← hdigest] at hverify
    exact hverify

namespace Demo

/-- The snapshot device 1 uploads as revision `r`. -/
def snapshotAt (r : Nat) : Bytes := List.replicate 16 (UInt8.ofNat r)

/-- Its header, after the header with the given digest. -/
def headerAt (r : Nat) (previousDigest : Bytes) : Header :=
  let unsigned : Header :=
    { version := versionV3, vaultID := vaultID, deviceID := deviceID 1, revision := r,
      vaultEpoch := 1, deviceListIndex := 1,
      deviceListDigest := (createEntry vaultID 1).digest toyCrypto,
      previousDigest := previousDigest,
      ciphertextDigest := Encoding.encode (toyCrypto.sha256 (snapshotAt r)),
      ciphertextLength := 16, nonce := zeros xChaChaNonceBytes, signature := [] }
  { unsigned with signature := signed 1 unsigned.signingPayload }

def header₁ : Header := headerAt 1 []

def header₂ : Header := headerAt 2 (header₁.digest toyCrypto)

def header₃ : Header := headerAt 3 (header₂.digest toyCrypto)

/-- Device 1 creates the vault and uploads three snapshots, one more than the
    service of this demonstration keeps headers. -/
def uploads : List Action :=
  created ++
    [.call (call 1 1000 2 (.upload header₁ (snapshotAt 1))),
     .call (call 1 1000 3 (.upload header₂ (snapshotAt 2))),
     .call (call 1 1000 4 (.upload header₃ (snapshotAt 3)))]

theorem uploads_revision :
    ((execAll (service (still 1000)) uploads start).2.data.vaults.lookup vaultID).map
      (·.currentRevision) = some 3 := by
  decide +kernel

theorem headers_recorded_uploads :
    (∃ row, (execAll (service (still 1000)) uploads start).2.data.header vaultID 2 = .ok row) ∧
    ¬∃ row, (execAll (service (still 1000)) uploads start).2.data.header vaultID 1 = .ok row := by
  obtain ⟨vault, hvault, hrevision⟩ := Option.map_eq_some_iff.mp uploads_revision
  have hsigns : Signs (service (still 1000)).crypto (service (still 1000)).receiptKey :=
    toyCrypto_signs (by decide)
  obtain ⟨_, _, hrange, _⟩ := headers_recorded hsigns (execAll_start _ uploads) hvault
  rw [hrange, hrange, hrevision]
  decide

end Demo

end Sesame.Syncsvc
