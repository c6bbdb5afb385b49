import SesameServer.Sync.Demo

/- The entry log, the device table and the vault row agree.

   Five operations write to all three, each with its own statements. `Agrees` is
   the one invariant that ties them together: the stored entries verify, and the
   list they make has the vault's head and epoch and one member for each device
   row, approved rows for current members and revoked rows for removed ones.

   1. `Grows.member_add` … `Grows.member_rotate` — the members after an entry of
      each kind.
   2. `Agrees.moved` — every move keeps the agreement.
   3. `device_list_agrees` — so it holds in every run. -/
namespace Sesame.Syncproto.DeviceList

variable {crypto : Crypto} {entry : DeviceListEntry} {list list' : DeviceList}

section
variable (g : Grows crypto entry list list')
include g

theorem Grows.member_add (kind : entry.kind = EntryKind.add.text) :
    list.member entry.subjectDeviceID = none ∧ entry.epochAfter = list.epoch ∧
      ∀ d, list'.member d = if d = entry.subjectDeviceID then some (memberFromEntry entry)
        else list.member d := by
  cases g with
  | add _ _ _ _ _ _ fresh epoch => exact ⟨fresh, epoch, fun d => member_setMember _ _ _⟩
  | create _ k | remove _ _ _ _ _ k | key _ _ _ _ _ k | rotate _ _ _ _ _ k =>
    exact absurd (kind.symm.trans k) (EntryKind.text_ne (by decide))

theorem Grows.member_remove (kind : entry.kind = EntryKind.remove.text) :
    ∃ subject, list.member entry.subjectDeviceID = some subject ∧ subject.removedIndex = 0 ∧
      ∀ d, list'.member d = if d = entry.subjectDeviceID then
        some { subject with removedIndex := entry.index } else list.member d := by
  cases g with
  | remove _ _ _ _ _ _ subject isSubject present =>
    exact ⟨subject, isSubject, present, fun d => member_setMember _ _ _⟩
  | create _ k | add _ _ _ _ _ k | key _ _ _ _ _ k | rotate _ _ _ _ _ k =>
    exact absurd (kind.symm.trans k) (EntryKind.text_ne (by decide))

theorem Grows.member_key (wf : WF list) (kind : entry.kind = EntryKind.key.text) :
    ∃ signer, list.member entry.signerDeviceID = some signer ∧ entry.epochAfter = list.epoch ∧
      ∀ d, list'.member d = if d = entry.signerDeviceID then
        some { signer with
          replaced := signer.replaced ++ [⟨entry.index, signer.packageKey⟩]
          packageKey := entry.subjectPackageKey } else list.member d := by
  cases g with
  | key signer isSigner _ _ _ _ epoch =>
    refine ⟨signer, isSigner, epoch, fun d => ?_⟩
    rw [member_append, member_setMember, wf.keyed _ _ isSigner]
  | create _ k | add _ _ _ _ _ k | remove _ _ _ _ _ k | rotate _ _ _ _ _ k =>
    exact absurd (kind.symm.trans k) (EntryKind.text_ne (by decide))

theorem Grows.member_rotate
    (kind : entry.kind = EntryKind.rotate.text) (d : Bytes) : list'.member d = list.member d := by
  cases g with
  | rotate => rfl
  | create _ k | add _ _ _ _ _ k | remove _ _ _ _ _ k | key _ _ _ _ _ k =>
    exact absurd (kind.symm.trans k) (EntryKind.text_ne (by decide))

end

end Sesame.Syncproto.DeviceList

namespace Sesame.Syncsvc
open Syncproto Outcome State Service DeviceList

variable {svc : Service} {crypto : Crypto} {L L' : Ledger} {list list' : DeviceList}

/-- Entries that verify load page by page to the same list. -/
theorem loads_iff (h : verifyDeviceList crypto L.entries = .ok list) :
    L.Loads crypto list' ↔ list' = list := by
  have hload : L.Loads crypto list := by
    unfold Ledger.Loads
    rw [loadPages_eq (by decide) (verifyDeviceList_index h) _ 0 _ (by omega), List.drop_zero,
      verifyDeviceList_ok.mp h]
  unfold Ledger.Loads at hload ⊢
  rw [hload]
  simp [eq_comm]

/-- **Loading is verifying.** Stored entries with the indexes from 1 on load, in any number of rounds
    that is above theirs, to the list that they verify to, and fail to load where they do not. -/
theorem loadList_verifies {s : State} {vaultID : Bytes}
    (hidx : (s.entriesOf vaultID).map (·.index) =
      (List.range (s.entriesOf vaultID).length).map (· + 1)) :
    loadList crypto s vaultID = (verifyDeviceList crypto (s.entriesOf vaultID)).mapError
      (.context "stored device list does not verify") ∧
    ∀ rounds, (s.entriesOf vaultID).length < rounds →
      loadPages crypto (s.entriesOf vaultID) maxEntriesPerPage rounds 0 newDeviceList =
        loadList crypto s vaultID := by
  have hload : ∀ rounds, (s.entriesOf vaultID).length < rounds →
      loadPages crypto (s.entriesOf vaultID) maxEntriesPerPage rounds 0 newDeviceList =
        (verifyDeviceList crypto (s.entriesOf vaultID)).mapError
          (.context "stored device list does not verify") := by
    intro rounds hrounds
    rw [loadPages_eq (by decide) hidx rounds 0 _ hrounds, List.drop_zero, verifyDeviceList]
    cases extendAll crypto (s.entriesOf vaultID) newDeviceList <;> rfl
  have hown := hload _ (Nat.lt_succ_self _)
  exact ⟨hown, fun rounds hrounds => (hload rounds hrounds).trans hown.symm⟩

namespace Demo

/-- `last`, and `n` rotations of the epoch by device 1 after it. -/
def rotatedFrom (last : DeviceListEntry) : Nat → List DeviceListEntry
  | 0 => [last]
  | n + 1 => last :: rotatedFrom (signEntry 1
      { vaultID := vaultID, index := last.index + 1, previousDigest := last.digest toyCrypto,
        kind := EntryKind.rotate.text, signerDeviceID := deviceID 1, subjectDeviceID := deviceID 1,
        subjectSigningKey := [], subjectPackageKey := [], sealedLabel := [],
        epochAfter := last.epochAfter + 1, snapshotFloor := 0, signature := [] }) n

/-- Device 1 has rotated the epoch of its vault as often as a page has entries. -/
def oftenRotated : State :=
  { newState with
    entries := AList.singleton vaultID (rotatedFrom (createEntry vaultID 1) maxEntriesPerPage) }

/-- Two pages, loaded in three rounds. -/
theorem often_rotated_loads : (oftenRotated.entriesOf vaultID).length = maxEntriesPerPage + 1 ∧
    loadList toyCrypto oftenRotated vaultID =
      (verifyDeviceList toyCrypto (oftenRotated.entriesOf vaultID)).mapError
        (.context "stored device list does not verify") :=
  ⟨by decide +kernel, (loadList_verifies (by decide +kernel)).1⟩

end Demo

/-- A device row tells what the list tells of the member. -/
structure RowMatches (row : Device) (member : DeviceListMember) : Prop where
  signingKey : row.signingKey = member.signingKey
  packageKey : row.packageKey = member.packageKey
  addedIndex : row.addedIndex = member.addedIndex
  state : (row.state = .approved ∧ member.removedIndex = 0) ∨
    (row.state = .revoked ∧ member.removedIndex ≠ 0)

theorem RowMatches.approved_iff {row : Device} {member : DeviceListMember}
    (h : RowMatches row member) : row.state = .approved ↔ member.removedIndex = 0 := by
  rcases h.state with ⟨hs, hm⟩ | ⟨hs, hm⟩ <;> simp [hs, hm]

theorem RowMatches.revoked_iff {row : Device} {member : DeviceListMember}
    (h : RowMatches row member) : row.state = .revoked ↔ member.removedIndex ≠ 0 := by
  rcases h.state with ⟨hs, hm⟩ | ⟨hs, hm⟩ <;> simp [hs, hm]

/-- The stored entries make a list that agrees with the vault and its devices. -/
structure Agrees (crypto : Crypto) (L : Ledger) (list : DeviceList) : Prop where
  verified : verifyDeviceList crypto L.entries = .ok list
  head : L.vault.headIndex = L.entries.length
  epoch : L.vault.epoch = list.epoch
  vault : list.vaultID = L.vault.id
  ids : ∀ d row, L.device d = some row → row.deviceID = d
  rows : ∀ d, Option.Rel RowMatches (L.device d) (list.member d)

section
variable (h : Agrees crypto L list)
include h

variable {d : Bytes}

theorem Agrees.row {row : Device} (hr : L.device d = some row) :
    ∃ m, list.member d = some m ∧ RowMatches row m := by
  have hrel := h.rows d
  rw [hr] at hrel
  generalize list.member d = x at hrel
  cases hrel with
  | some hm => exact ⟨_, rfl, hm⟩

theorem Agrees.member {m : DeviceListMember} (hm : list.member d = some m) :
    ∃ row, L.device d = some row ∧ RowMatches row m := by
  have hrel := h.rows d
  rw [hm] at hrel
  generalize L.device d = x at hrel
  cases hrel with
  | some hr => exact ⟨_, rfl, hr⟩

theorem Agrees.wf : DeviceList.WF list := verifyDeviceList_wf h.verified

theorem Agrees.current_iff :
    d ∈ list.current.map (·.deviceID) ↔ ∃ row, L.device d = some row ∧ row.state = .approved := by
  simp only [List.mem_map, mem_current]
  constructor
  · rintro ⟨m, ⟨⟨d', hm⟩, hpresent⟩, rfl⟩
    obtain ⟨row, hr, hmatch⟩ := h.member hm
    rw [h.wf.keyed _ _ hm]
    exact ⟨row, hr, hmatch.approved_iff.mpr hpresent⟩
  · rintro ⟨row, hr, hstate⟩
    obtain ⟨m, hm, hmatch⟩ := h.row hr
    exact ⟨m, ⟨⟨d, hm⟩, hmatch.approved_iff.mp hstate⟩, h.wf.keyed _ _ hm⟩

theorem Agrees.head_eq : L.vault.headIndex = list.head := by
  rw [h.head, verifyDeviceList_head h.verified]

end

variable {actor : Actor} {kind : EntryKind} {entry : DeviceListEntry}

/-- An entry that an activated device appends grows the list of its vault. -/
theorem Agrees.grown (h : Agrees svc.crypto L list) (a : Appends svc L actor kind entry list') :
    verifyDeviceList svc.crypto (L.entries ++ [entry]) = .ok list' ∧ entry.validate = .ok () ∧
      entry.index = list.head + 1 ∧ Grows svc.crypto entry list list' := by
  obtain ⟨l, hload, hext⟩ := a.grown
  rw [(loads_iff h.verified).mp hload] at hext
  exact ⟨verifyDeviceList_snoc.mpr ⟨list, h.verified, hext⟩, extend_grows hext⟩

/-- What is left to show after an entry is appended: the rows. -/
theorem Agrees.appended (h : Agrees svc.crypto L list) (a : Appends svc L actor kind entry list')
    (hid : L'.vault.id = L.vault.id) (hentries : L'.entries = L.entries ++ [entry])
    (hhead : L'.vault.headIndex = entry.index) (hepoch : L'.vault.epoch = entry.epochAfter)
    (ids : ∀ d row, L'.device d = some row → row.deviceID = d)
    (rows : ∀ d, Option.Rel RowMatches (L'.device d) (list'.member d)) :
    Agrees svc.crypto L' list' := by
  obtain ⟨hverified, _, hindex, g⟩ := h.grown a
  refine ⟨by rw [hentries]; exact hverified, ?_, ?_, ?_, ids, rows⟩
  · rw [hhead, hentries, hindex, verifyDeviceList_head h.verified]
    simp
  · rw [hepoch, g.epoch]
  · rw [g.vaultID, a.vault, hid]

/-- Updating one device's row and its member keeps the rows matched. -/
theorem rows_update {device : Bytes → Option Device} {member member' : Bytes → Option DeviceListMember}
    {d₀ : Bytes} {row : Device} {m : DeviceListMember}
    (hmember : ∀ d, member' d = if d = d₀ then some m else member d) (hrow : RowMatches row m)
    (h : ∀ d, Option.Rel RowMatches (device d) (member d)) (d : Bytes) :
    Option.Rel RowMatches (Function.update device d₀ (some row) d) (member' d) := by
  rw [hmember, Function.update_apply]
  split
  · exact .some hrow
  · exact h d

theorem ids_update {device : Bytes → Option Device} {d₀ : Bytes} {row₀ : Device}
    (hid : row₀.deviceID = d₀) (h : ∀ d row, device d = some row → row.deviceID = d) (d : Bytes)
    (row : Device) (hr : Function.update device d₀ (some row₀) d = some row) :
    row.deviceID = d := by
  rw [Function.update_apply] at hr
  split at hr
  · next e => rw [← Option.some.inj hr, hid, e]
  · exact h d row hr

theorem rekeyed_fields (actor : Actor) (kind : EntryKind) (entry : DeviceListEntry) (row : Device) :
    (rekeyed actor kind entry row).deviceID = row.deviceID ∧
    (rekeyed actor kind entry row).tokenDeviceID = row.tokenDeviceID ∧
    (rekeyed actor kind entry row).signingKey = row.signingKey ∧
    (rekeyed actor kind entry row).packageKey = row.packageKey ∧
    (rekeyed actor kind entry row).addedIndex = row.addedIndex ∧
    (rekeyed actor kind entry row).state =
      if kind = .remove ∧ row.deviceID = entry.subjectDeviceID then .revoked else row.state := by
  unfold rekeyed rekeyDevice
  split
  · simp
  · split <;> simp

theorem Agrees.rekeyed (h : Agrees svc.crypto L list) (a : Appends svc L actor kind entry list')
    (hkind : kind = .remove ∨ kind = .rotate) (d : Bytes) :
    Option.Rel RowMatches ((L.device d).map (rekeyed actor kind entry)) (list'.member d) := by
  obtain ⟨_, _, hindex, g⟩ := h.grown a
  -- every row but that of the removed device
  have hkept : ¬(kind = .remove ∧ d = entry.subjectDeviceID) →
      Option.Rel RowMatches ((L.device d).map (Service.rekeyed actor kind entry)) (list.member d) := by
    intro hne
    cases hd : L.device d with
    | none =>
      have hrel := h.rows d
      rw [hd] at hrel
      exact hrel
    | some row =>
      obtain ⟨m, hm, hmatch⟩ := h.row hd
      obtain ⟨_, _, hsk, hpk, hadd, hstate⟩ := rekeyed_fields actor kind entry row
      rw [hm]
      refine .some ⟨hsk.trans hmatch.signingKey, hpk.trans hmatch.packageKey,
        hadd.trans hmatch.addedIndex, ?_⟩
      rw [hstate, if_neg fun e => hne ⟨e.1, (h.ids d row hd).symm.trans e.2⟩]
      exact hmatch.state
  rcases hkind with rfl | rfl
  · obtain ⟨subject, hs, hpresent, hmem⟩ := g.member_remove a.kind
    rw [hmem]
    split
    · next hsub =>
      obtain ⟨row, hr, hmatch⟩ := h.member hs
      obtain ⟨_, _, hsk, hpk, hadd, hstate⟩ := rekeyed_fields actor .remove entry row
      rw [hsub, hr]
      refine .some ⟨hsk.trans hmatch.signingKey, hpk.trans hmatch.packageKey,
        hadd.trans hmatch.addedIndex, Or.inr ⟨?_, ?_⟩⟩
      · rw [hstate, if_pos ⟨rfl, h.ids _ row hr⟩]
      · simp only [ne_eq]
        omega
    · next hsub => exact hkept fun e => hsub e.2
  · rw [g.member_rotate a.kind]
    exact hkept (by simp)

theorem Agrees.opened {caller : Caller} {now : Time}
    (h : verifyDeviceList crypto [entry] = .ok list) :
    Agrees crypto (opening caller entry list now) list := by
  have hsnoc : verifyDeviceList crypto ([] ++ [entry]) = .ok list := h
  obtain ⟨l, hl, hext⟩ := verifyDeviceList_snoc.mp hsnoc
  obtain ⟨_, hindex, g⟩ := extend_grows hext
  have hhead := verifyDeviceList_head hl
  have hempty := (verifyDeviceList_wf hl).no_members hhead
  have hone : entry.index = 1 := by rw [hindex, hhead]; rfl
  -- the only entry is the create
  have hmember : ∀ d, list.member d =
      if d = entry.subjectDeviceID then some (memberFromEntry entry) else none := by
    intro d
    cases g with
    | create =>
      rw [member_append, member_setMember]
      split
      · rfl
      · exact hempty d
    | add signer isSigner | remove signer isSigner | key signer isSigner
    | rotate signer isSigner => rw [hempty] at isSigner; cases isSigner
  refine ⟨h, rfl, rfl, g.vaultID, ids_update rfl (fun _ _ hr => by cases hr), ?_⟩
  exact rows_update hmember ⟨rfl, rfl, hone.symm, Or.inl ⟨rfl, rfl⟩⟩ (fun _ => .none)

/-- **Every move keeps the agreement.** -/
theorem Agrees.moved {call : Call} (move : Move svc L call L') (h : Agrees svc.crypto L list) :
    ∃ list', Agrees svc.crypto L' list' := by
  cases move with
  | offered | answered | confirmed | cancelled | uploaded | checkpointed =>
    exact ⟨list, h.verified, h.head, h.epoch, h.vault, h.ids, h.rows⟩
  | approved acts appends =>
    obtain ⟨_, _, _, g⟩ := h.grown appends
    obtain ⟨_, hepoch, hmember⟩ := g.member_add appends.kind
    exact ⟨_, h.appended appends rfl rfl rfl (h.epoch.trans hepoch.symm) (ids_update rfl h.ids)
      (rows_update hmember ⟨rfl, rfl, rfl, Or.inl ⟨rfl, rfl⟩⟩ h.rows)⟩
  | activated acts approved =>
    have hrow := acts.row (requireApproved_ok approved).1
    obtain ⟨m, hm, hmatch⟩ := h.row hrow
    refine ⟨list, h.verified, h.head, h.epoch, h.vault, ids_update rfl h.ids, ?_⟩
    refine rows_update (m := m) (fun d => ?_)
      ⟨hmatch.signingKey, hmatch.packageKey, hmatch.addedIndex, hmatch.state⟩ h.rows
    split
    · next e => rw [e, hm]
    · rfl
  | @rekeyed _ _ kind _ entry _ actor _ _ acts isOp appends =>
    refine ⟨_, h.appended appends rfl rfl rfl rfl (fun d row hr => ?_)
      (h.rekeyed appends (isOp.imp And.left And.left))⟩
    obtain ⟨row₀, hr₀, rfl⟩ := Option.map_eq_some_iff.mp hr
    rw [(rekeyed_fields actor kind entry row₀).1]
    exact h.ids d row₀ hr₀
  | upgraded acts appends =>
    obtain ⟨_, _, _, g⟩ := h.grown appends
    obtain ⟨signer, hsigner, hepoch, hmember⟩ := g.member_key h.wf appends.kind
    have hrow := acts.row (requireActivated_ok appends.activated).1
    obtain ⟨m, hm, hmatch⟩ := h.row hrow
    rw [appends.signer] at hmember hsigner
    rw [hsigner] at hm
    obtain rfl := Option.some.inj hm
    exact ⟨_, h.appended appends rfl rfl rfl (h.epoch.trans hepoch.symm) (ids_update rfl h.ids)
      (rows_update hmember ⟨hmatch.signingKey, rfl, hmatch.addedIndex, hmatch.state⟩ h.rows)⟩

theorem Agrees.step {book book' : Book} {action : Action} (step : Step svc book action book')
    (h : ∀ v L, book v = some L → ∃ list, Agrees svc.crypto L list) :
    ∀ v L, book' v = some L → ∃ list, Agrees svc.crypto L list :=
  step.forall (fun _ _ _ _ _ hl => ⟨_, Agrees.opened hl⟩)
    (fun _ _ ⟨list, hl⟩ => ⟨list, hl.verified, hl.head, hl.epoch, hl.vault, hl.ids, hl.rows⟩)
    (fun _ _ _ _ hmove ⟨_, hl⟩ => hl.moved hmove) h

section
variable {P : Sys → Action → Prop} {events : List Event} {sys : Sys} (run : Run svc P events sys)
include run

/-- In every run, every stored vault's ledger agrees with its list. -/
theorem Run.agrees : State.WF sys.data ∧
      ∀ v L, sys.data.ledger v = some L → ∃ list, Agrees svc.crypto L list :=
  run.holds (fun _ _ _ _ _ _ h hstep => Agrees.step hstep h)

/-- And has what every new ledger has with its list, expiry does not touch and every move keeps. -/
theorem Run.agreed {Q : Ledger → DeviceList → Prop}
    (opened : ∀ caller entry list now, Q (opening caller entry list now) list)
    (expired : ∀ L list now, Q L list → Q (L.expire now) list)
    (moved : ∀ L call L' list list', Move svc L call L' → Agrees svc.crypto L list →
      Agrees svc.crypto L' list' → Q L list → Q L' list') : State.WF sys.data ∧
      ∀ v L, sys.data.ledger v = some L → ∃ list, Agrees svc.crypto L list ∧ Q L list := by
  refine run.holds fun _ _ _ _ _ _ h hstep => hstep.forall ?_ ?_ ?_ h
  · exact fun _ _ _ _ _ hl => ⟨_, .opened hl, opened _ _ _ _⟩
  · rintro L now ⟨list, ha, hq⟩
    exact ⟨list, ⟨ha.verified, ha.head, ha.epoch, ha.vault, ha.ids, ha.rows⟩, expired L list now hq⟩
  · rintro L call L' - hmove ⟨list, ha, hq⟩
    obtain ⟨list', ha'⟩ := ha.moved hmove
    exact ⟨list', ha', moved L call L' list list' hmove ha ha' hq⟩

end

/-! The rows and the members, as the store and the list enumerate them. -/

def rowFields (row : Device) : Bytes × Bytes × Bytes × Nat :=
  (row.deviceID, row.signingKey, row.packageKey, row.addedIndex)

def memberFields (member : DeviceListMember) : Bytes × Bytes × Bytes × Nat :=
  (member.deviceID, member.signingKey, member.packageKey, member.addedIndex)

def removedMembers (list : DeviceList) : List DeviceListMember :=
  list.members.values.filter (fun member => member.removedIndex ≠ 0)

theorem nodup_of_ids {α β : Type} {l : List α} {f : α → Bytes × β}
    (h : (l.map (fun a => (f a).1)).Nodup) : (l.map f).Nodup := by
  refine List.Nodup.of_map Prod.fst ?_
  rwa [List.map_map]

variable {s : State} {v : Bytes}

theorem Agrees.rows_perm (h : Agrees crypto L list) (wf : State.WF s) (hL : s.ledger v = some L)
    {p : Device → Prop} {q : DeviceListMember → Prop} [DecidablePred p] [DecidablePred q]
    (hpq : ∀ row m, RowMatches row m → (p row ↔ q m)) :
    (((s.devicesOf v).filter (p ·)).map rowFields).Perm
      ((list.members.values.filter (q ·)).map memberFields) := by
  have hrows : (((s.devicesOf v).filter (p ·)).map rowFields).Nodup :=
    nodup_of_ids ((wf.nodup_devicesOf v).sublist (List.filter_sublist.map _))
  have hmembers : ((list.members.values.filter (q ·)).map memberFields).Nodup :=
    nodup_of_ids (h.wf.nodup_ids.sublist (List.filter_sublist.map _))
  refine (List.perm_ext_iff_of_nodup hrows hmembers).mpr fun x => ?_
  simp only [List.mem_map, List.mem_filter, decide_eq_true_eq, mem_devicesOf wf hL, Table.mem_values]
  constructor
  · rintro ⟨row, ⟨hr, hp⟩, rfl⟩
    obtain ⟨m, hm, hmatch⟩ := h.row hr
    refine ⟨m, ⟨⟨_, hm⟩, (hpq row m hmatch).mp hp⟩, ?_⟩
    simp [rowFields, memberFields, hmatch.signingKey, hmatch.packageKey, hmatch.addedIndex,
      h.wf.keyed _ _ hm]
  · rintro ⟨m, ⟨⟨d, hm⟩, hq⟩, rfl⟩
    obtain ⟨row, hr, hmatch⟩ := h.member hm
    have hid := h.ids d row hr
    refine ⟨row, ⟨by rw [hid]; exact hr, (hpq row m hmatch).mpr hq⟩, ?_⟩
    simp [rowFields, memberFields, hmatch.signingKey, hmatch.packageKey, hmatch.addedIndex, hid,
      h.wf.keyed _ _ hm]

/-- **The device list, the device table and the vault agree.** In every run, the
    stored entries of every stored vault load; their list has the vault's head and
    epoch; the approved rows are the current members, and the revoked rows the
    removed ones. -/
theorem device_list_agrees {events : List Event} {sys : Sys} (run : Run svc Any events sys)
    {vaultID : Bytes} {vault : Vault} (stored : sys.data.vaults.lookup vaultID = some vault) :
    ∃ list, loadList svc.crypto sys.data vaultID = .ok list ∧
      vault.headIndex = (sys.data.entriesOf vaultID).length ∧ vault.headIndex = list.head ∧
      vault.epoch = list.epoch ∧
      (((sys.data.devicesOf vaultID).filter (fun row => row.state = .approved)).map rowFields).Perm
        (list.current.map memberFields) ∧
      (((sys.data.devicesOf vaultID).filter (fun row => row.state = .revoked)).map
        (·.deviceID)).Perm ((removedMembers list).map (·.deviceID)) := by
  obtain ⟨wf, hagrees⟩ := run.agrees
  have hL := ledger_of_lookup stored
  obtain ⟨list, h⟩ := hagrees _ _ hL
  refine ⟨list, (loads_iff h.verified).mpr rfl, h.head, h.head_eq, h.epoch,
    h.rows_perm wf hL fun _ _ hmatch => hmatch.approved_iff, ?_⟩
  have hrevoked := (h.rows_perm wf hL fun _ _ hmatch => hmatch.revoked_iff).map Prod.fst
  rwa [List.map_map, List.map_map] at hrevoked

namespace Demo

/-- A device was added and removed again: three entries, and one revoked row. -/
theorem device_list_agrees_removed :
    ∃ list, loadList toyCrypto (execAll (service (still 1000)) removed start).2.data vaultID =
        .ok list ∧ list.head = 3 ∧ list.epoch = 2 ∧
      (removedMembers list).map (·.deviceID) = [deviceID 2] := by
  obtain ⟨vault, hvault⟩ := Option.isSome_iff_exists.mp removed_stored
  have hvaults : ((execAll (service (still 1000)) removed start).2.data.vaults.lookup vaultID).map
      (fun vault => (vault.headIndex, vault.epoch)) = some (3, 2) := by decide +kernel
  have hrevoked : ((execAll (service (still 1000)) removed start).2.data.devicesOf vaultID |>.filter
      (fun row => row.state = .revoked)).map (·.deviceID) = [deviceID 2] := by decide +kernel
  obtain ⟨list, hload, _, hhead, hepoch, _, hremoved⟩ :=
    device_list_agrees (execAll_start _ removed) hvault
  rw [hvault, Option.map_some, Option.some.injEq, Prod.mk.injEq] at hvaults
  rw [hrevoked] at hremoved
  exact ⟨list, hload, hhead.symm.trans hvaults.1, hepoch.symm.trans hvaults.2,
    List.perm_singleton.mp hremoved.symm⟩

end Demo

end Sesame.Syncsvc
