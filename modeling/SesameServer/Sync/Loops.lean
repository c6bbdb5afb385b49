import SesameServer.Sync.Programs

/- The loops of `rekey` and `Upload`: what a run that ends without an error has
   done to the ledger of the vault it works on. Each is an induction on the list
   or the rounds the loop goes through. -/
namespace Sesame.Syncsvc
open Syncproto Outcome State

variable {tx tx' : Tx} {u : Unit} {v : Bytes} {L : Ledger} {svc : Service}

/-! Reading the ledger. -/

variable {s : State} {d : Bytes}

section
variable (hL : s.ledger v = some L)
include hL

theorem loadList_ledger {crypto : Crypto}  : loadList crypto s v =
      loadPages crypto L.entries maxEntriesPerPage (L.entries.length + 1) 0 newDeviceList := by
  rw [(ledger_some hL).2]
  rfl

theorem device_ledger {row : Device}  : s.device v d = .ok row ↔ L.device d = some row := by
  rw [(ledger_some hL).2]
  simp only [State.device, ledgerOf]
  cases s.devices.lookup (key [v, d]) <;> simp

theorem pairing_ledger {pairing : Pairing}  :
    s.pairing v d = .ok pairing ↔ L.pairing d = some pairing := by
  rw [(ledger_some hL).2]
  simp only [State.pairing, ledgerOf]
  cases s.pairings.lookup (key [v, d]) <;> simp

theorem keyPackage_ledger {pkg : KeyPackage}  :
    s.keyPackage v d = .ok pkg ↔ L.package d = some pkg := by
  rw [(ledger_some hL).2]
  simp only [keyPackage, ledgerOf]
  cases s.packages.lookup (key [v, d]) <;> simp

theorem pairing_none (h : L.pairing d = none) : s.pairing v d = .error (.is .notFound) := by
  rw [(ledger_some hL).2] at h
  simp only [State.pairing]
  rw [show s.pairings.lookup (key [v, d]) = none from h]

theorem keyPackage_none (h : L.package d = none) : s.keyPackage v d = .error (.is .notFound) := by
  rw [(ledger_some hL).2] at h
  simp only [keyPackage]
  rw [show s.packages.lookup (key [v, d]) = none from h]

theorem header_ledger {r : Nat} {stored : StoredHeader}  :
    s.header v r = .ok stored ↔ L.header r = some stored := by
  rw [(ledger_some hL).2]
  simp only [State.header, ledgerOf]
  cases (s.headersOf v).lookup r <;> simp

theorem ciphertext_ledger {r : Nat} {c : Bytes}  :
    s.ciphertext v r = .ok c ↔ L.ciphertexts.lookup r = some c := by
  rw [(ledger_some hL).2]
  simp only [State.ciphertext, ledgerOf, Finmap.lookup_toFinmap]
  cases (s.ciphertextsOf v).lookup r <;> simp

end

/-- The loop of `LatestHeader` ends on a row that no other outranks. -/
theorem foldl_laterHeader : ∀ (rows : List StoredHeader) (found : Option StoredHeader)
    {best : StoredHeader}, rows.foldl laterHeader found = some best →
    (found = some best ∨ best ∈ rows) ∧
      (∀ f, found = some f → f.header.revision ≤ best.header.revision) ∧
      ∀ r ∈ rows, r.header.revision ≤ best.header.revision
  | [], found, best, h => by
    refine ⟨Or.inl h, fun f hf => ?_, fun r hr => by cases hr⟩
    rw [show found = some best from h] at hf
    rw [Option.some.inj hf]
  | row :: rows, found, best, h => by
    obtain ⟨hmem, hle, hrows⟩ := foldl_laterHeader rows _ h
    cases found with
    | none =>
      simp only [laterHeader, Option.some.injEq, forall_eq'] at hmem hle
      refine ⟨Or.inr ?_, fun f hf => (by cases hf), fun r hr => ?_⟩
      · rcases hmem with rfl | hm
        · exact List.mem_cons_self
        · exact List.mem_cons_of_mem _ hm
      · rcases List.mem_cons.mp hr with rfl | hr
        · exact hle
        · exact hrows r hr
    | some f =>
      simp only [laterHeader] at hmem hle
      by_cases hlt : f.header.revision < row.header.revision
      · simp only [if_pos hlt, Option.some.injEq, forall_eq'] at hmem hle
        refine ⟨Or.inr ?_, fun g hg => ?_, fun r hr => ?_⟩
        · rcases hmem with rfl | hm
          · exact List.mem_cons_self
          · exact List.mem_cons_of_mem _ hm
        · obtain rfl := Option.some.inj hg
          omega
        · rcases List.mem_cons.mp hr with rfl | hr
          · exact hle
          · exact hrows r hr
      · simp only [if_neg hlt, Option.some.injEq, forall_eq'] at hmem hle
        refine ⟨?_, fun g hg => ?_, fun r hr => ?_⟩
        · rcases hmem with rfl | hm
          · exact Or.inl rfl
          · exact Or.inr (List.mem_cons_of_mem _ hm)
        · obtain rfl := Option.some.inj hg
          exact hle
        · rcases List.mem_cons.mp hr with rfl | hr
          · omega
          · exact hrows r hr

theorem foldl_laterHeader_none : ∀ (rows : List StoredHeader) (found : Option StoredHeader),
    rows.foldl laterHeader found = none → found = none ∧ rows = []
  | [], _, h => ⟨h, rfl⟩
  | row :: rows, found, h => by
    have hnone := (foldl_laterHeader_none rows _ h).1
    cases found with
    | none => cases hnone
    | some best =>
      simp only [laterHeader] at hnone
      split at hnone <;> cases hnone

theorem latestHeader_ok {stored : StoredHeader} (hL : s.ledger v = some L)
    (h : s.latestHeader v = .ok stored) : (∃ r, L.header r = some stored) ∧
      ∀ r other, L.header r = some other → other.header.revision ≤ stored.header.revision := by
  unfold latestHeader at h
  cases hf : (s.headersOf v).values.foldl laterHeader none with
  | none => simp [hf] at h
  | some best =>
    simp only [hf] at h
    obtain rfl := Except.ok.inj h
    obtain ⟨hmem, _, hrows⟩ := foldl_laterHeader _ _ hf
    rw [(ledger_some hL).2]
    refine ⟨?_, fun r other ho => hrows other (Table.mem_values.mpr ⟨r, ho⟩)⟩
    rcases hmem with hn | hm
    · cases hn
    · exact Table.mem_values.mp hm

/-- The loop of `OldestCiphertext` ends on one of the rows. -/
theorem foldl_olderCiphertext : ∀ (rows : List (Sigma fun _ : Nat => Bytes))
    (found : Option (Nat × Nat)) {r size : Nat}, rows.foldl olderCiphertext found = some (r, size) →
    found = some (r, size) ∨ ∃ c, (⟨r, c⟩ : Sigma fun _ : Nat => Bytes) ∈ rows ∧ c.length = size
  | [], _, _, _, h => Or.inl h
  | row :: rows, found, r, size, h => by
    rcases foldl_olderCiphertext rows _ h with hf | ⟨c, hm, hc⟩
    · have hrow : some (row.1, row.2.length) = some (r, size) →
          ∃ c, (⟨r, c⟩ : Sigma fun _ : Nat => Bytes) ∈ row :: rows ∧ c.length = size := by
        intro he
        simp only [Option.some.injEq, Prod.mk.injEq] at he
        obtain ⟨rfl, rfl⟩ := he
        exact ⟨row.2, List.mem_cons_self, rfl⟩
      cases found with
      | none => exact Or.inr (hrow hf)
      | some f =>
        simp only [olderCiphertext] at hf
        split at hf
        · exact Or.inr (hrow hf)
        · exact Or.inl hf
    · exact Or.inr ⟨c, List.mem_cons_of_mem _ hm, hc⟩

theorem oldestCiphertext_ok {r size : Nat} (hL : s.ledger v = some L)
    (h : s.oldestCiphertext v = .ok (r, size)) :
    ∃ c, L.ciphertexts.lookup r = some c ∧ c.length = size := by
  unfold oldestCiphertext at h
  cases hf : (s.ciphertextsOf v).entries.foldl olderCiphertext none with
  | none => simp [hf] at h
  | some found =>
    simp only [hf] at h
    obtain rfl := Except.ok.inj h
    rcases foldl_olderCiphertext _ _ hf with hn | ⟨c, hm, hc⟩
    · cases hn
    · refine ⟨c, ?_, hc⟩
      rw [(ledger_some hL).2]
      exact AList.mem_lookup_iff.mpr hm

namespace Service

/-! `rekey`. -/

/-- The packages of a rekey by the device they are for. -/
def packageFor (packages : List KeyPackageV3) (now : Time) (d : Bytes) : Option KeyPackage :=
  (packages.find? (fun pkg => pkg.recipientDeviceID = d)).map (fun pkg => { pkg with createdAt := now })

/-- What `rekey` checks of each package. -/
structure GoodPackage (svc : Service) (actor : Actor) (entry : DeviceListEntry)
    (pkg : KeyPackageV3) : Prop where
  vault : pkg.vaultID = actor.vault.id
  sender : pkg.senderDeviceID = actor.device.deviceID
  epoch : pkg.vaultEpoch = entry.epochAfter
  digest : pkg.entryDigest = entry.digest svc.crypto
  verified : pkg.verify svc.crypto actor.device.signingKey = .ok ()

variable {actor : Actor} {entry : DeviceListEntry} {kind : EntryKind} {vault : Vault}

theorem putPackages_ok {now : Time} :
    ∀ (packages : List KeyPackageV3) (expected : Finset Bytes) {tx tx' : Tx} {L : Ledger},
    WF tx.data → tx.data.ledger actor.vault.id = some L →
    svc.putPackages actor entry now packages expected tx = .ok u tx' →
    (∀ pkg ∈ packages, GoodPackage svc actor entry pkg ∧ pkg.recipientDeviceID ∈ expected) ∧
    (packages.map (·.recipientDeviceID)).Nodup ∧ At tx.data actor.vault.id (some { L with
      package := fun d => (packageFor packages now d).or (L.package d) }) tx'.data
  | [], _, tx, tx', L, wf, hL, h => by
    obtain ⟨_, rfl⟩ := pure_ok.mp h
    exact ⟨fun _ hm => (by cases hm), List.nodup_nil, At.refl wf hL⟩
  | pkg :: rest, expected, tx, tx', L, wf, hL, h => by
    simp only [putPackages, bind_ok, refuse_ok, lift_ok, write_ok, orInvalid_ok, not_not] at h
    obtain ⟨_, _, ⟨hexp, rfl⟩, _, _, ⟨hfields, rfl⟩, _, _, ⟨hver, rfl⟩, _, _, rfl, h⟩ := h
    push Not at hfields
    obtain ⟨hvault, hsender, hepoch, hdigest⟩ := hfields
    have hput := putKeyPackage_at wf hL { pkg with createdAt := now } hvault
    obtain ⟨hgood, hnodup, hat⟩ := putPackages_ok rest (expected.erase pkg.recipientDeviceID)
      hput.wf hput.here h
    -- the recipient is no longer expected, so no later package is for it
    have hnotin : pkg.recipientDeviceID ∉ rest.map (·.recipientDeviceID) := by
      intro hm
      obtain ⟨p, hp, he⟩ := List.mem_map.mp hm
      have := (hgood p hp).2
      rw [he] at this
      exact Finset.notMem_erase _ _ this
    refine ⟨fun p hp => ?_, List.nodup_cons.mpr ⟨hnotin, hnodup⟩, ?_⟩
    · rcases List.mem_cons.mp hp with rfl | hp
      · exact ⟨⟨hvault, hsender, hepoch, hdigest, hver⟩, hexp⟩
      · exact ⟨(hgood p hp).1, Finset.mem_of_mem_erase (hgood p hp).2⟩
    · have hfun : (fun d => (packageFor rest now d).or (Function.update L.package
          pkg.recipientDeviceID (some { pkg with createdAt := now }) d)) =
          fun d => (packageFor (pkg :: rest) now d).or (L.package d) := by
        funext d
        by_cases hd : pkg.recipientDeviceID = d
        · subst hd
          have hnone : packageFor rest now pkg.recipientDeviceID = none := by
            simp only [packageFor, Option.map_eq_none_iff, List.find?_eq_none, decide_eq_true_eq]
            exact fun p hp he => hnotin (List.mem_map.mpr ⟨p, hp, he⟩)
          rw [hnone]
          simp [packageFor]
        · simp [packageFor, hd, Ne.symm hd]
      rw [← hfun]
      exact hput.trans hat

def rekeyed (actor : Actor) (kind : EntryKind) (entry : DeviceListEntry) (row : Device) : Device :=
  (rekeyDevice actor kind entry row).getD row

theorem rekeyDevice_id {row row' : Device} (h : rekeyDevice actor kind entry row = some row') :
    row'.deviceID = row.deviceID ∧ row'.vaultID = row.vaultID := by
  unfold rekeyDevice at h
  split at h
  · obtain rfl := Option.some.inj h; exact ⟨rfl, rfl⟩
  · split at h
    · obtain rfl := Option.some.inj h; exact ⟨rfl, rfl⟩
    · cases h

theorem rekeyDevices_ok {old : Bytes → Option Device} :
    ∀ (rows : List Device) {tx tx' : Tx} {L : Ledger}, WF tx.data → tx.data.ledger v = some L →
    (∀ row ∈ rows, row.vaultID = v ∧ old row.deviceID = some row) →
    rekeyDevices actor kind entry rows tx = .ok u tx' →
    ∃ device, At tx.data v (some { L with device := device }) tx'.data ∧
      ∀ d, device d = L.device d ∧ (∀ row ∈ rows, row.deviceID = d →
          rekeyDevice actor kind entry row = none) ∨
        device d = (old d).map (rekeyed actor kind entry)
  | [], tx, tx', L, wf, hL, _, h => by
    obtain ⟨_, rfl⟩ := pure_ok.mp h
    exact ⟨L.device, At.refl wf hL, fun d => Or.inl ⟨rfl, fun _ hm => by cases hm⟩⟩
  | row :: rest, tx, tx', L, wf, hL, hrows, h => by
    have hrest := fun r hr => hrows r (List.mem_cons_of_mem row hr)
    obtain ⟨hrv, hold⟩ := hrows row List.mem_cons_self
    cases hk : rekeyDevice actor kind entry row with
    | none =>
      simp only [rekeyDevices, hk, forSome, bind_ok, pure_ok] at h
      obtain ⟨_, _, ⟨_, rfl⟩, h⟩ := h
      obtain ⟨device, hat, hdev⟩ := rekeyDevices_ok rest wf hL hrest h
      refine ⟨device, hat, fun d => ?_⟩
      rcases hdev d with ⟨hsame, hnone⟩ | hmap
      · refine Or.inl ⟨hsame, fun r hr hd => ?_⟩
        rcases List.mem_cons.mp hr with rfl | hr
        · exact hk
        · exact hnone r hr hd
      · exact Or.inr hmap
    | some row' =>
      simp only [rekeyDevices, hk, forSome, bind_ok, update_ok] at h
      obtain ⟨_, _, ⟨data, hput, rfl⟩, h⟩ := h
      obtain ⟨hid, hvault⟩ := rekeyDevice_id hk
      have hput := putDevice_at wf hL hput (hvault.trans hrv)
      obtain ⟨device, hat, hdev⟩ := rekeyDevices_ok rest hput.wf hput.here hrest h
      refine ⟨device, hput.trans hat, fun d => ?_⟩
      have hmap : (old row.deviceID).map (rekeyed actor kind entry) = some row' := by
        simp [hold, rekeyed, hk]
      by_cases hd : row.deviceID = d
      · subst hd
        right
        rcases hdev row.deviceID with ⟨hsame, _⟩ | hdone
        · rw [hsame, hmap]
          simp [hid]
        · exact hdone
      · rcases hdev d with ⟨hsame, hnone⟩ | hdone
        · refine Or.inl ⟨?_, fun r hr hrd => ?_⟩
          · rw [hsame]
            simp [hid, Ne.symm hd]
          · rcases List.mem_cons.mp hr with rfl | hr
            · exact absurd hrd hd
            · exact hnone r hr hrd
        · exact Or.inr hdone

theorem rekeyDevices_all (wf : WF tx.data) (hL : tx.data.ledger v = some L)
    (h : rekeyDevices actor kind entry (tx.data.devicesOf v) tx = .ok u tx') :
    At tx.data v (some { L with
      device := fun d => (L.device d).map (rekeyed actor kind entry) }) tx'.data := by
  have hrows : ∀ row ∈ tx.data.devicesOf v, row.vaultID = v ∧ L.device row.deviceID = some row := by
    intro row hm
    have hrow := (mem_devicesOf wf hL).mp hm
    exact ⟨(wf.device_row hL hrow).1, hrow⟩
  obtain ⟨device, hat, hdev⟩ := rekeyDevices_ok _ wf hL hrows h
  have hfun : device = fun d => (L.device d).map (rekeyed actor kind entry) := by
    funext d
    rcases hdev d with ⟨hsame, hnone⟩ | hmap
    · rw [hsame]
      cases hd : L.device d with
      | none => rfl
      | some row =>
        have hid := (wf.device_row hL hd).2
        have := hnone row ((mem_devicesOf wf hL).mpr (by rw [hid]; exact hd)) hid
        simp [rekeyed, this]
    · exact hmap
  rw [← hfun]
  exact hat

theorem deletePairings_ok : ∀ (rows : List Pairing) {tx tx' : Tx} {L : Ledger}, WF tx.data →
    tx.data.ledger v = some L → deletePairings v rows tx = .ok u tx' → At tx.data v (some { L with
      pairing := fun d => if d ∈ rows.map (·.deviceID) then none else L.pairing d }) tx'.data
  | [], tx, tx', L, wf, hL, h => by
    obtain ⟨_, rfl⟩ := pure_ok.mp h
    simpa using At.refl wf hL
  | row :: rest, tx, tx', L, wf, hL, h => by
    simp only [deletePairings, bind_ok, write_ok] at h
    obtain ⟨_, _, rfl, h⟩ := h
    have hdel := deletePairing_at wf hL row.deviceID
    have hat := hdel.trans (deletePairings_ok rest hdel.wf hdel.here h)
    have hfun : (fun d => if d ∈ rest.map (·.deviceID) then none
        else Function.update L.pairing row.deviceID none d) =
        fun d => if d ∈ (row :: rest).map (·.deviceID) then none else L.pairing d := by
      funext d
      by_cases hd : d = row.deviceID <;> simp [hd]
    rw [← hfun]
    exact hat

theorem deletePairings_all (wf : WF tx.data) (hL : tx.data.ledger v = some L)
    (h : deletePairings v (tx.data.pairingsOf v) tx = .ok u tx') :
    At tx.data v (some { L with pairing := fun _ => none }) tx'.data := by
  have hfun : (fun d => if d ∈ (tx.data.pairingsOf v).map (·.deviceID) then none
      else L.pairing d) = fun _ => none := by
    funext d
    split
    · rfl
    · next hd =>
      cases hp : L.pairing d with
      | none => rfl
      | some row =>
        have hid := (wf.pairing_row hL hp).2
        exact absurd (List.mem_map.mpr
          ⟨row, (mem_pairingsOf wf hL).mpr (by rw [hid]; exact hp), hid⟩) hd
  rw [← hfun]
  exact deletePairings_ok _ wf hL h

/-! `makeRoom`. -/

/-- What is left when room was made: some of the ciphertexts, among them every one
    from the current revision on, and few enough bytes. -/
structure Room (svc : Service) (vault : Vault) (incoming : Nat)
    (before kept : Finmap (fun _ : Nat => Bytes)) : Prop where
  sub : ∀ r c, kept.lookup r = some c → before.lookup r = some c
  recent : ∀ r, vault.currentRevision ≤ r → kept.lookup r = before.lookup r
  fits : kept.sumBy List.length + incoming ≤ svc.byteBudget

theorem makeRoomLoop_ok {incoming : Nat} :
    ∀ (rounds stored : Nat) {tx tx' : Tx} {L : Ledger}, WF tx.data →
    tx.data.ledger vault.id = some L → stored = L.ciphertexts.sumBy List.length →
    svc.makeRoomLoop vault incoming rounds stored tx = .ok u tx' →
    ∃ kept, Room svc vault incoming L.ciphertexts kept ∧
      At tx.data vault.id (some { L with ciphertexts := kept }) tx'.data ∧ tx'.ticks = tx.ticks
  | 0, _, _, _, _, _, _, _, h => (throw_ok.mp h).elim
  | rounds + 1, stored, tx, tx', L, wf, hL, hstored, h => by
    unfold makeRoomLoop at h
    by_cases hfull : svc.byteBudget < stored + incoming
    · rw [if_pos hfull, bind_ok] at h
      obtain ⟨x, _, hfind, h⟩ := h
      obtain ⟨rfl, hsome, _⟩ := find_ok hfind
      cases x with
      | none => exact (throw_ok.mp h).elim
      | some oldest =>
        obtain ⟨revision, size⟩ := oldest
        simp only [bind_ok, refuse_ok, write_ok, not_le] at h
        obtain ⟨_, _, ⟨hold, rfl⟩, _, _, rfl, h⟩ := h
        obtain ⟨c, hc, hsize⟩ := oldestCiphertext_ok hL (hsome _ rfl)
        have hdel := deleteCiphertext_at wf hL revision
        have hsum := Finmap.sumBy_erase List.length hc
        obtain ⟨kept, hroom, hat, hticks⟩ := makeRoomLoop_ok rounds (stored - size) hdel.wf
          hdel.here (by simp only; omega) h
        refine ⟨kept, ⟨fun r x hr => ?_, fun r hr => ?_, hroom.fits⟩, hdel.trans hat, hticks⟩
        · have hx := hroom.sub r x hr
          by_cases hrev : r = revision
          · rw [hrev, Finmap.lookup_erase] at hx; cases hx
          · rwa [Finmap.lookup_erase_ne hrev] at hx
        · -- what is deleted is older than the current revision
          rw [hroom.recent r hr, Finmap.lookup_erase_ne (by omega)]
    · rw [if_neg hfull] at h
      obtain ⟨_, rfl⟩ := pure_ok.mp h
      exact ⟨L.ciphertexts, ⟨fun _ _ hr => hr, fun _ _ => rfl, by omega⟩, At.refl wf hL, rfl⟩

theorem makeRoom_ok {incoming : Nat} (wf : WF tx.data)
    (hL : tx.data.ledger vault.id = some L) (h : svc.makeRoom vault incoming tx = .ok u tx') :
    ∃ kept, Room svc vault incoming L.ciphertexts kept ∧
      At tx.data vault.id (some { L with ciphertexts := kept }) tx'.data ∧
        tx'.ticks = tx.ticks := by
  simp only [makeRoom, bind_ok, refuse_ok, query_ok, Except.ok.injEq] at h
  obtain ⟨_, _, ⟨_, rfl⟩, _, _, ⟨rfl, rfl⟩, _, _, ⟨rfl, rfl⟩, h⟩ := h
  refine makeRoomLoop_ok _ _ wf hL ?_ h
  rw [(ledger_some hL).2]
  exact (Finmap.sumBy_toFinmap _ _).symm

theorem previousHeader_ok {header : Header} {previous : Option Header}
    (hL : tx.data.ledger vault.id = some L) (h : previousHeader vault header tx = .ok previous tx') :
    tx = tx' ∧ ((vault.currentRevision = 0 ∧ previous = none) ∨
      (0 < vault.currentRevision ∧ ∃ stored, previous = some stored.header ∧
        header.previousDigest = stored.digest ∧ (∃ r, L.header r = some stored) ∧
        ∀ r other, L.header r = some other → other.header.revision ≤ stored.header.revision)) := by
  unfold previousHeader at h
  by_cases hpos : 0 < vault.currentRevision
  · rw [if_pos hpos] at h
    simp only [bind_ok, query_ok, refuse_ok, pure_ok, not_not] at h
    obtain ⟨stored, _, ⟨hlatest, rfl⟩, _, _, ⟨hdigest, rfl⟩, rfl, rfl⟩ := h
    obtain ⟨hmem, hmax⟩ := latestHeader_ok hL hlatest
    exact ⟨rfl, Or.inr ⟨hpos, stored, rfl, hdigest, hmem, hmax⟩⟩
  · rw [if_neg hpos] at h
    obtain ⟨rfl, rfl⟩ := pure_ok.mp h
    exact ⟨rfl, Or.inl ⟨by omega, rfl⟩⟩

end Service

end Sesame.Syncsvc
