import SesameServer.Sync.Moves

/- The code refines the moves: one lemma for each operation, and `run_step` over
   all of them. Each proof takes the operation's run apart with the lemmas of its
   parts, chains the effects of the writes, and names the move. -/
namespace Sesame.Syncsvc
open Syncproto Outcome State Service

variable {svc : Service} {tx tx₁ tx' : Tx} {u : Unit} {caller : Caller} {request : SignedRequest}
  {v : Bytes} {L L' : Ledger}

/-- The store is well formed, and the ledgers have made the step. -/
abbrev Refined (svc : Service) (tx : Tx) (action : Action) (tx' : Tx) : Prop :=
  WF tx'.data ∧ Step svc tx.data.ledger action tx'.data.ledger

theorem step_of_move {call : Call} (hledger : tx₁.data.ledger = tx.data.ledger)
    (hL : tx₁.data.ledger v = some L) (move : Move svc L call L')
    (hat : At tx₁.data v (some L') tx'.data) : Refined svc tx (.call call) tx' := by
  refine ⟨hat.wf, ?_⟩
  rw [hat.ledger, hledger]
  exact .moved (by rw [← hledger]; exact hL) move

variable {actor : Actor} {entry : DeviceListEntry} {deviceID message : Bytes} {pkg : KeyPackageV3}

theorem Service.ActsAs.row (acts : ActsAs caller L actor) (h : actor.pairing = none) :
    L.device actor.device.deviceID = some actor.device := (acts.device h).1

/-- The checks `Approve`, `rekey` and `UpgradeKey` share. -/
theorem appends_of {kind : EntryKind} {list' : DeviceList}
    {tx₂ : Tx} (hext : svc.extendStored actor.vault.id entry tx = .ok list' tx₂)
    (hL : tx.data.ledger actor.vault.id = some L) (acts : ActsAs caller L actor)
    (hact : requireActivated actor = .ok ()) (hforeign : ¬foreignEntry actor kind entry) :
    tx = tx₂ ∧ Appends svc L actor kind entry list' := by
  obtain ⟨rfl, list, hload, hext⟩ := extendStored_ok hext
  rw [loadList_ledger hL] at hload
  simp only [foreignEntry] at hforeign
  push Not at hforeign
  exact ⟨rfl, hact, hforeign.1, hforeign.2.1, hforeign.2.2.trans (congrArg Vault.id acts.vault.symm), list,
    hload, hext⟩

/-- A reading of the clock between the two states was before the pairing's expiry. -/
def InTime (svc : Service) (ticks ticks' : Nat) (pairing : Pairing) : Prop :=
  ∃ t, ticks ≤ t ∧ t < ticks' ∧ svc.clock t < pairing.expiresAt

/-- The request was verified under the key at a reading of the clock between the two
    states. -/
def SignedWith (svc : Service) (key : Bytes) (caller : Caller) (request : SignedRequest)
    (ticks ticks' : Nat) : Prop :=
  ∃ t, ticks ≤ t ∧ t < ticks' ∧ (signatureOf caller request).verify svc.crypto key
    request.signature (unixSeconds (svc.clock t)).toNat = .ok ()

/-- `Approve` up to its first write. -/
def Service.approveChecks (svc : Service) (caller : Caller) (request : SignedRequest)
    (entry : DeviceListEntry) (pkg : KeyPackageV3) : TxM (Actor × Pairing) := do
  let actor ← svc.signedActor caller request
  lift (requireActivated actor)
  refuse (foreignEntry actor .add entry) (.is .forbidden)
  let pairing ← query (·.pairing actor.vault.id entry.subjectDeviceID)
  svc.requirePairing pairing .confirmed
  refuse (pairing.signingKey ≠ entry.subjectSigningKey ∨
    pairing.packageKey ≠ entry.subjectPackageKey) (.is .forbidden)
  refuse (staleEntry actor entry) (.is .conflict)
  let _ ← svc.extendStored actor.vault.id entry
  refuse (pkg.vaultID ≠ actor.vault.id ∨ pkg.senderDeviceID ≠ actor.device.deviceID ∨
    pkg.recipientDeviceID ≠ entry.subjectDeviceID ∨ pkg.vaultEpoch ≠ actor.vault.epoch ∨
    pkg.entryDigest ≠ entry.digest svc.crypto) (.is .invalid)
  lift (orInvalid (pkg.verify svc.crypto actor.device.signingKey))
  pure (actor, pairing)

def approvedDevice (vault : Vault) (entry : DeviceListEntry) (pairing : Pairing) (now : Time) :
    Device :=
  { vaultID := vault.id, deviceID := entry.subjectDeviceID,
    tokenDeviceID := pairing.tokenDeviceID, signingKey := entry.subjectSigningKey,
    packageKey := entry.subjectPackageKey, state := .approved, addedIndex := entry.index,
    createdAt := now }

/-- `Approve` from its first write on. -/
def Service.approveWrites (svc : Service) (entry : DeviceListEntry) (pkg : KeyPackageV3)
    (checked : Actor × Pairing) : TxM Unit := do
  let (actor, pairing) := checked
  let now ← svc.now
  update (·.appendDeviceListEntry entry)
  update (·.putDevice (approvedDevice actor.vault entry pairing now))
  write (·.putKeyPackage { pkg with createdAt := now })
  write (·.deletePairing actor.vault.id entry.subjectDeviceID)
  update (·.updateVault { actor.vault with headIndex := entry.index, updatedAt := now })

theorem approve_split (entry : DeviceListEntry) (pkg : KeyPackageV3) :
    svc.approve caller request entry pkg =
      svc.approveChecks caller request entry pkg >>= svc.approveWrites entry pkg := by
  simp only [approve, approveChecks, approveWrites, approvedDevice, bind_assoc, pure_bind]

/-- What `Approve` has checked when it starts to write. -/
structure MayApprove (svc : Service) (caller : Caller) (request : SignedRequest)
    (entry : DeviceListEntry) (pkg : KeyPackageV3) (L : Ledger) (actor : Actor) (pairing : Pairing)
    (tx tx' : Tx) : Prop where
  wf : WF tx'.data
  ledger : tx'.data.ledger = tx.data.ledger
  stored : tx'.data.ledger L.vault.id = some L
  acts : ActsAs caller L actor
  appends : ∃ list', Appends svc L actor .add entry list'
  fresh : entry.index = (L.vault.headIndex + 1) % 2 ^ 64
  found : L.pairing entry.subjectDeviceID = some pairing
  state : pairing.state = .confirmed
  live : InTime svc tx.ticks tx'.ticks pairing
  keys : pairing.signingKey = entry.subjectSigningKey ∧
    pairing.packageKey = entry.subjectPackageKey
  package : WelcomePackage svc L actor entry pkg

def Ledger.approve (entry : DeviceListEntry) (pkg : KeyPackageV3) (pairing : Pairing) (now : Time)
    (L : Ledger) : Ledger :=
  { L with
    vault := { L.vault with headIndex := entry.index, updatedAt := now }
    entries := L.entries ++ [entry]
    device := Function.update L.device entry.subjectDeviceID
      (some (approvedDevice L.vault entry pairing now))
    package := Function.update L.package entry.subjectDeviceID (some { pkg with createdAt := now })
    pairing := Function.update L.pairing entry.subjectDeviceID none }

theorem approveWrites_ok
    {pairing : Pairing} (may : MayApprove svc caller request entry pkg L actor pairing tx tx₁)
    (h : svc.approveWrites entry pkg (actor, pairing) tx₁ = .ok u tx') :
    At tx₁.data L.vault.id (some (L.approve entry pkg pairing (svc.clock tx₁.ticks))) tx'.data ∧
      tx₁.ticks < tx'.ticks ∧ ∀ d other, L.device d = some other →
        other.tokenDeviceID = pairing.tokenDeviceID → d ≠ entry.subjectDeviceID → other.state = .revoked := by
  simp only [approveWrites, bind_ok, update_ok, write_ok, now_ok] at h
  obtain ⟨_, _, ⟨rfl, rfl⟩, _, _, ⟨s₁, happend, rfl⟩, _, _, ⟨s₂, hput, rfl⟩, _, _, rfl,
    _, _, rfl, s₃, hupdate, rfl⟩ := h
  obtain ⟨vault, device, own⟩ := actor
  obtain rfl := may.acts.vault
  obtain ⟨list', happends⟩ := may.appends
  have hat₁ := appendDeviceListEntry_at may.wf may.stored happend happends.vault
  have hat₂ := hat₁.trans (putDevice_at hat₁.wf hat₁.here hput rfl)
  have hat₃ := hat₂.trans (putKeyPackage_at hat₂.wf hat₂.here
    { pkg with createdAt := svc.clock tx₁.ticks } may.package.vault)
  have hat₄ := hat₃.trans (deletePairing_at hat₃.wf hat₃.here entry.subjectDeviceID)
  have hlast := updateVault_at hupdate hat₄.wf hat₄.here rfl
  have hat₅ := hat₄.trans hlast
  simp only [may.package.recipient] at hat₅
  exact ⟨hat₅, Nat.lt_succ_self _, fun d other ho =>
    putDevice_token hat₁.wf hat₁.here rfl (by simp [approvedDevice]) hput ho⟩

variable (wf : WF tx.data)
include wf

/-- `signedActor_ok`, with the actor's vault named as the ledger's. -/
theorem signedActor_cases (h : svc.signedActor caller request tx = .ok actor tx₁) :
    ∃ L device pairing, actor = ⟨L.vault, device, pairing⟩ ∧ WF tx₁.data ∧
      tx₁.data.ledger = tx.data.ledger ∧ tx₁.data.ledger L.vault.id = some L ∧
      ActsAs caller L actor := by
  obtain ⟨hwf, hledger, L, hL, acts⟩ := signedActor_ok wf h
  obtain ⟨vault, device, pairing⟩ := actor
  obtain rfl := acts.vault
  exact ⟨L, device, pairing, rfl, hwf, hledger, hL, acts⟩

theorem createVault_step {vault : Vault}
    (h : svc.createVault caller request entry tx = .ok vault tx') :
    Refined svc tx (.call ⟨caller, request, .createVault entry⟩) tx' := by
  simp only [createVault, bind_ok, refuse_ok, lift_ok, orInvalid_ok, now_ok, update_ok,
    pure_ok] at h
  obtain ⟨_, _, ⟨hcomplete, rfl⟩, _, _, hfind, _, _, ⟨_, rfl⟩, list, _, ⟨hlist, rfl⟩, _, tx₁,
    hverify, _, _, ⟨rfl, rfl⟩, _, _, ⟨s₁, hinsert, rfl⟩, _, _, ⟨s₂, happend, rfl⟩, _, _,
    ⟨s₃, hput, rfl⟩, _, rfl⟩ := h
  obtain ⟨rfl, _⟩ := find_ok hfind
  obtain ⟨hwf, hledger⟩ := (verifyRequest_ok hverify).ledger wf
  -- the entry is the list's first, so its vault id is a valid one
  have hsnoc : verifyDeviceList svc.crypto ([] ++ [entry]) = .ok list := hlist
  obtain ⟨_, _, hext⟩ := verifyDeviceList_snoc.mp hsnoc
  have hvalid := (DeviceList.extend_grows hext).1
  obtain ⟨hfresh, hat₁⟩ := insertVault_at hwf (DeviceListEntry.validate_ok hvalid).1 hinsert
  have hat₂ := hat₁.trans (appendDeviceListEntry_at hat₁.wf hat₁.here happend rfl)
  have hat₃ := hat₂.trans (putDevice_at hat₂.wf hat₂.here hput rfl)
  refine ⟨hat₃.wf, ?_⟩
  rw [hat₃.ledger, hledger]
  exact .opened hcomplete (by rw [← hledger]; exact hfresh) hlist

theorem signedActor_ticks
    (h : svc.signedActor caller request tx = .ok actor tx₁) : tx.ticks < tx₁.ticks := by
  obtain ⟨tx₂, hactor, hverified⟩ := signedActor_verified h
  have hle := (actorFor_ok wf hactor).2.2.1
  have := hverified.ticks
  omega

/-- What a successful `AnswerPairing` has checked and done. -/
structure Answers (svc : Service) (caller : Caller) (deviceID message : Bytes) (L : Ledger)
    (actor : Actor) (pairing : Pairing) (tx tx' : Tx) : Prop where
  stored : tx.data.ledger L.vault.id = some L
  acts : ActsAs caller L actor
  activated : requireActivated actor = .ok ()
  found : L.pairing deviceID = some pairing
  state : pairing.state = .offered
  live : InTime svc tx.ticks tx'.ticks pairing
  effect : At tx.data L.vault.id (some { L with
    pairing := Function.update L.pairing deviceID
      (some { pairing with answer := message, state := .answered }) }) tx'.data

theorem answerPairing_ok (h : svc.answerPairing caller request deviceID message tx = .ok u tx') :
    ∃ L actor pairing, Answers svc caller deviceID message L actor pairing tx tx' := by
  simp only [answerPairing, bind_ok, lift_ok, refuse_ok, query_ok, write_ok] at h
  obtain ⟨actor, tx₁, hactor, _, _, ⟨hact, rfl⟩, _, _, ⟨_, rfl⟩, pairing, _, ⟨hfound, rfl⟩, _, _,
    hpairing, rfl⟩ := h
  have hticks := signedActor_ticks wf hactor
  obtain ⟨L, device, own, rfl, hwf, hledger, hL, acts⟩ := signedActor_cases wf hactor
  obtain ⟨hstate, hlive, rfl⟩ := requirePairing_ok hpairing
  have hrow := (pairing_ledger hL).mp hfound
  obtain ⟨hv, rfl⟩ := hwf.pairing_row hL hrow
  have hat := putPairing_at hwf hL { pairing with answer := message, state := .answered } hv
  exact ⟨L, _, pairing, by rw [← hledger]; exact hL, acts, hact, hrow, hstate,
    ⟨tx₁.ticks, hticks.le, Nat.lt_succ_self _, hlive⟩, hat.wf, by rw [hat.ledger, hledger]⟩

theorem answerPairing_step (h : svc.answerPairing caller request deviceID message tx = .ok u tx') :
    Refined svc tx (.call ⟨caller, request, .answerPairing deviceID message⟩) tx' := by
  obtain ⟨L, actor, pairing, a⟩ := answerPairing_ok wf h
  obtain ⟨_, _, _, hlive⟩ := a.live
  exact step_of_move rfl a.stored (.answered a.acts a.activated a.found a.state hlive) a.effect

/-- What a successful `ConfirmPairing` has checked and done. -/
structure Confirms (svc : Service) (caller : Caller) (request : SignedRequest) (message : Bytes)
    (L : Ledger) (actor : Actor) (pairing : Pairing) (tx tx' : Tx) : Prop where
  stored : tx.data.ledger L.vault.id = some L
  acts : ActsAs caller L actor
  own : actor.pairing = some pairing
  state : pairing.state = .answered
  live : InTime svc tx.ticks tx'.ticks pairing
  signed : SignedWith svc pairing.signingKey caller request tx.ticks tx'.ticks
  effect : At tx.data L.vault.id (some { L with
    pairing := Function.update L.pairing pairing.deviceID
      (some { pairing with confirm := message, state := .confirmed }) }) tx'.data

theorem confirmPairing_ok (h : svc.confirmPairing caller request message tx = .ok u tx') :
    ∃ L actor pairing, Confirms svc caller request message L actor pairing tx tx' := by
  simp only [confirmPairing, bind_ok] at h
  obtain ⟨actor, tx₁, hactor, h⟩ := h
  obtain ⟨tx₀, hfor, hverified⟩ := signedActor_verified hactor
  obtain ⟨L, device, own, rfl, hwf, hledger, hL, acts⟩ := signedActor_cases wf hactor
  cases own with
  | none => simp only [throw_ok] at h
  | some pairing =>
    simp only [bind_ok, refuse_ok, write_ok, not_not] at h
    obtain ⟨_, _, ⟨_, rfl⟩, _, _, ⟨hstate, rfl⟩, rfl⟩ := h
    obtain ⟨hrow, _, hdevice⟩ := acts.pairing pairing rfl
    obtain ⟨hv, _⟩ := hwf.pairing_row hL hrow
    obtain ⟨hlive, hticks⟩ := (actorFor_ok wf hfor).2.2.2.1 _ rfl
    have hticks' := hverified.ticks
    have hsigned := hverified.signed
    rw [show device.signingKey = pairing.signingKey by
      rw [show device = pendingDevice L.vault pairing from hdevice]; rfl] at hsigned
    have hat := putPairing_at hwf hL { pairing with confirm := message, state := .confirmed } hv
    exact ⟨L, _, pairing, by rw [← hledger]; exact hL, acts, rfl, hstate,
      ⟨tx.ticks, Nat.le_refl _, by simp only; omega, hlive⟩,
      ⟨tx₀.ticks, by omega, by simp only; omega, hsigned⟩, hat.wf, by rw [hat.ledger, hledger]⟩

theorem confirmPairing_step (h : svc.confirmPairing caller request message tx = .ok u tx') :
    Refined svc tx (.call ⟨caller, request, .confirmPairing message⟩) tx' := by
  obtain ⟨L, actor, pairing, c⟩ := confirmPairing_ok wf h
  exact step_of_move rfl c.stored (.confirmed c.acts c.own c.state) c.effect

theorem cancelPairing_step (h : svc.cancelPairing caller request deviceID tx = .ok u tx') :
    Refined svc tx (.call ⟨caller, request, .cancelPairing deviceID⟩) tx' := by
  simp only [cancelPairing, bind_ok] at h
  obtain ⟨actor, tx₁, hactor, h⟩ := h
  obtain ⟨L, device, own, rfl, hwf, hledger, hL, acts⟩ := signedActor_cases wf hactor
  cases own with
  | some pairing =>
    simp only [write_ok] at h
    subst h
    exact step_of_move hledger hL (.cancelled acts (Or.inl ⟨pairing, rfl, rfl⟩))
      (deletePairing_at hwf hL _)
  | none =>
    simp only [bind_ok, lift_ok, write_ok] at h
    obtain ⟨_, _, ⟨happroved, rfl⟩, rfl⟩ := h
    exact step_of_move hledger hL (.cancelled acts (Or.inr ⟨happroved, rfl⟩))
      (deletePairing_at hwf hL _)

theorem activate_step {packageDigest : Bytes}
    (h : svc.activate caller request packageDigest tx = .ok u tx') :
    Refined svc tx (.call ⟨caller, request, .activate packageDigest⟩) tx' := by
  simp only [activate, bind_ok, lift_ok, query_ok, refuse_ok, update_ok] at h
  obtain ⟨actor, tx₁, hactor, _, _, ⟨happroved, rfl⟩, pkg, _, ⟨hpkg, rfl⟩, _, _, ⟨hmatch, rfl⟩,
    s, hput, rfl⟩ := h
  obtain ⟨L, device, own, rfl, hwf, hledger, hL, acts⟩ := signedActor_cases wf hactor
  push Not at hmatch
  have hrow := acts.row (requireApproved_ok happroved).1
  exact step_of_move hledger hL
    (.activated acts happroved ((keyPackage_ledger hL).mp hpkg) hmatch.1 hmatch.2)
    (putDevice_at hwf hL hput (hwf.device_row hL hrow).1)

theorem approveChecks_ok {pairing : Pairing}
    (h : svc.approveChecks caller request entry pkg tx = .ok (actor, pairing) tx') :
    ∃ L, MayApprove svc caller request entry pkg L actor pairing tx tx' := by
  simp only [approveChecks, bind_ok, lift_ok, query_ok, refuse_ok, orInvalid_ok, pure_ok] at h
  obtain ⟨actor, tx₁, hactor, _, _, ⟨hact, rfl⟩, _, _, ⟨hforeign, rfl⟩, pairing, _, ⟨hfound, rfl⟩,
    _, _, hpairing, h⟩ := h
  obtain ⟨_, _, ⟨hkeys, rfl⟩, _, _, ⟨hfresh, rfl⟩, list', _, hext, _, _, ⟨hfields, rfl⟩, _, _,
    ⟨hverified, rfl⟩, hsame, rfl⟩ := h
  obtain ⟨rfl, rfl⟩ := Prod.mk.inj hsame
  have hticks := signedActor_ticks wf hactor
  obtain ⟨L, device, own, rfl, hwf, hledger, hL, acts⟩ := signedActor_cases wf hactor
  obtain ⟨hstate, hlive, rfl⟩ := requirePairing_ok hpairing
  obtain ⟨rfl, happends⟩ := appends_of hext hL acts hact hforeign
  push Not at hkeys hfields
  obtain ⟨hpv, hps, hpr, hpe, hpd⟩ := hfields
  refine ⟨L, hwf, hledger, hL, acts, ⟨list', happends⟩, not_not.mp hfresh, (pairing_ledger hL).mp hfound,
    hstate, ⟨tx₁.ticks, hticks.le, Nat.lt_succ_self _, hlive⟩, hkeys,
    hpv, hps, hpr, hpe, hpd, hverified⟩

theorem approve_step (h : svc.approve caller request entry pkg tx = .ok u tx') :
    Refined svc tx (.call ⟨caller, request, .approve entry pkg⟩) tx' := by
  rw [approve_split] at h
  obtain ⟨⟨actor, pairing⟩, tx₁, hchecks, hwrites⟩ := bind_ok.mp h
  obtain ⟨L, may⟩ := approveChecks_ok wf hchecks
  obtain ⟨hat, _, htoken⟩ := approveWrites_ok may hwrites
  obtain ⟨list', happends⟩ := may.appends
  obtain ⟨_, _, _, hlive⟩ := may.live
  exact step_of_move may.ledger may.stored
    (.approved may.acts happends may.found may.state hlive may.keys may.package htoken) hat

theorem upgradeKey_step (h : svc.upgradeKey caller request entry tx = .ok u tx') :
    Refined svc tx (.call ⟨caller, request, .upgradeKey entry⟩) tx' := by
  simp only [upgradeKey, bind_ok, lift_ok, refuse_ok, update_ok, now_ok] at h
  obtain ⟨actor, tx₁, hactor, _, _, ⟨hact, rfl⟩, _, _, ⟨hforeign, rfl⟩, _, _, ⟨_, rfl⟩, list', _,
    hext, _, _, ⟨s₁, happend, rfl⟩, _, _, ⟨s₂, hput, rfl⟩, _, _, ⟨rfl, rfl⟩, s₃, hupdate, rfl⟩ := h
  obtain ⟨L, device, own, rfl, hwf, hledger, hL, acts⟩ := signedActor_cases wf hactor
  obtain ⟨rfl, happends⟩ := appends_of hext hL acts hact hforeign
  have hrow := acts.row (requireActivated_ok hact).1
  have hat₁ := appendDeviceListEntry_at hwf hL happend happends.vault
  have hat₂ := hat₁.trans (putDevice_at hat₁.wf hat₁.here hput (hwf.device_row hL hrow).1)
  have hlast := updateVault_at hupdate hat₂.wf hat₂.here rfl
  have hat₃ := hat₂.trans hlast
  exact step_of_move hledger hL (.upgraded acts happends) hat₃

theorem putCheckpoint_step {checkpoint : Checkpoint} {stored : StoredCheckpoint}
    (h : svc.putCheckpoint caller request checkpoint tx = .ok stored tx') :
    Refined svc tx (.call ⟨caller, request, .putCheckpoint checkpoint⟩) tx' := by
  simp only [Service.putCheckpoint, bind_ok, lift_ok, refuse_ok, orInvalid_ok, unix_ok, now_ok, write_ok,
    pure_ok] at h
  obtain ⟨actor, tx₁, hactor, _, _, ⟨hact, rfl⟩, _, _, ⟨hforeign, rfl⟩, _, _, ⟨hverified, rfl⟩, _,
    _, ⟨rfl, rfl⟩, _, _, ⟨hskew, rfl⟩, _, _, hfind, _, _, ⟨_, rfl⟩, now, _, ⟨_, rfl⟩, _, _, rfl, _,
    rfl⟩ := h
  obtain ⟨L, device, own, rfl, hwf, hledger, hL, acts⟩ := signedActor_cases wf hactor
  obtain ⟨rfl, _⟩ := find_ok hfind
  push Not at hforeign
  exact step_of_move hledger hL (.checkpointed acts hact hforeign.1 hforeign.2 hverified
    (by simpa using hskew)) (putCheckpoint_at hwf hL { checkpoint with acceptedAt := now } hforeign.1)

theorem reset_step {vaultEpoch : Nat} (h : svc.reset caller request vaultEpoch tx = .ok u tx') :
    Refined svc tx (.call ⟨caller, request, .reset vaultEpoch⟩) tx' := by
  simp only [reset, bind_ok, lift_ok, refuse_ok, write_ok, not_not] at h
  obtain ⟨actor, tx₁, hactor, _, _, ⟨happroved, rfl⟩, _, _, ⟨hepoch, rfl⟩, rfl⟩ := h
  obtain ⟨L, device, own, rfl, hwf, hledger, hL, acts⟩ := signedActor_cases wf hactor
  have hat := deleteVault_at hwf L.vault.id
  refine ⟨hat.wf, ?_⟩
  rw [hat.ledger, hledger]
  exact .reset (by rw [← hledger]; exact hL) acts happroved hepoch

theorem adminReset_step {ownerKey : Bytes} (h : Service.adminReset ownerKey tx = .ok u tx') :
    Refined svc tx (.adminReset ownerKey) tx' := by
  simp only [Service.adminReset, bind_ok, query_ok, write_ok] at h
  obtain ⟨vault, _, ⟨hvault, rfl⟩, rfl⟩ := h
  obtain ⟨howner, L, hL, hLv⟩ := vaultByOwner_ok wf hvault
  have hat := deleteVault_at wf vault.id
  refine ⟨hat.wf, ?_⟩
  rw [hat.ledger]
  exact .adminReset hL (by rw [hLv]; exact howner)

theorem maintain_step (h : svc.maintain tx = .ok u tx') : Refined svc tx .maintain tx' := by
  simp only [maintain, bind_ok, now_ok, write_ok] at h
  obtain ⟨now, _, ⟨_, rfl⟩, rfl⟩ := h
  refine ⟨purgeExpired_wf wf now, ?_⟩
  rw [ledger_purgeExpired]
  exact .maintained

def offeredPairing (vault : Vault) (caller : Caller) (offer : PairingOffer) (now : Time) : Pairing :=
  { vaultID := vault.id, deviceID := offer.deviceID, tokenDeviceID := caller.tokenDeviceID,
    signingKey := offer.signingKey, packageKey := offer.packageKey, offer := offer.message,
    state := .offered, expiresAt := now + pairingLifetime, createdAt := now }

/-- The pairings without the token's earlier one. -/
def Ledger.withdraw (previous : Option Pairing) (L : Ledger) : Ledger :=
  { L with pairing := fun d => if previous.map (·.deviceID) = some d then none else L.pairing d }

/-- What a successful `BeginPairing` has checked and done: `previous` is the pairing
    the token had, and the clock was read for the purge and for the new row. -/
structure Begins (svc : Service) (caller : Caller) (request : SignedRequest) (offer : PairingOffer)
    (L : Ledger) (previous : Option Pairing) (tx tx' : Tx) : Prop where
  complete : ¬caller.incomplete
  owner : L.vault.ownerKey = caller.ownerKey
  stored : tx.data.ledger L.vault.id = some L
  valid : (pairingProbe L.vault offer).validate = .ok ()
  signed : (signatureOf caller request).verify svc.crypto offer.signingKey request.signature
    (unixSeconds (svc.clock tx.ticks)).toNat = .ok ()
  revoked : ∀ row, tx.data.deviceByToken L.vault.id caller.tokenDeviceID = .ok row →
    row.state = .revoked
  unused : L.device offer.deviceID = none
  own : ∀ p ∈ previous, L.pairing p.deviceID = some p ∧ p.tokenDeviceID = caller.tokenDeviceID
  first : previous = none → ∀ d p, L.pairing d = some p → p.tokenDeviceID ≠ caller.tokenDeviceID
  few : ∃ ids : Finset Bytes, ids.card < maxPendingPairings ∧
    ∀ d p, ((L.withdraw previous).expire (svc.clock (tx.ticks + 3))).pairing d = some p → d ∈ ids
  ticks : tx'.ticks = tx.ticks + 5
  wf : WF tx'.data
  ledger : tx'.data.ledger = Function.update
    (fun w => (tx.data.ledger w).map (Ledger.expire (svc.clock (tx.ticks + 3)))) L.vault.id
    (some { L with
      pairing := Function.update
        ((L.withdraw previous).expire (svc.clock (tx.ticks + 3))).pairing offer.deviceID
        (some (offeredPairing L.vault caller offer (svc.clock (tx.ticks + 4)))) })

/-- The token's earlier pairing, if any, is deleted before the purge. -/
theorem withdraw_at (hL : tx.data.ledger L.vault.id = some L) {previous : Option Pairing}
    (h : forSome previous (fun p => write (·.deletePairing L.vault.id p.deviceID)) tx = .ok u tx') :
    At tx.data L.vault.id (some (L.withdraw previous)) tx'.data ∧ tx'.ticks = tx.ticks := by
  rcases forSome_ok.mp h with ⟨p, rfl, hwrite⟩ | ⟨rfl, rfl⟩
  · rw [write_ok] at hwrite
    rw [← hwrite]
    have hfun : (L.withdraw (some p)).pairing = Function.update L.pairing p.deviceID none := by
      funext x
      by_cases hx : x = p.deviceID
      · simp [Ledger.withdraw, hx]
      · simp [Ledger.withdraw, hx, Ne.symm hx]
    have hat := deletePairing_at wf hL p.deviceID
    rw [← hfun] at hat
    exact ⟨hat, rfl⟩
  · have hsame : L.withdraw none = L := by simp [Ledger.withdraw]
    rw [hsame]
    exact ⟨At.refl wf hL, rfl⟩

/-- **What `BeginPairing` does.** -/
theorem beginPairing_ok {offer : PairingOffer}
    (h : svc.beginPairing caller request offer tx = .ok u tx') :
    ∃ L previous, Begins svc caller request offer L previous tx tx' := by
  simp only [beginPairing, bind_ok, refuse_ok, lift_ok, orInvalid_ok, now_ok, query_ok,
    write_ok, Except.ok.injEq] at h
  obtain ⟨_, _, ⟨hcomplete, rfl⟩, vault, _, hvault, _, _, ⟨_, rfl⟩, _, _, ⟨hvalid, rfl⟩, _, tx₁,
    hverify, existing, _, hexisting, _, _, ⟨hrevoked, rfl⟩, h⟩ := h
  obtain ⟨used, _, hused, _, _, ⟨hunused, rfl⟩, previous, _, hprevious, _, tx₂, hdelete, h⟩ := h
  obtain ⟨_, _, ⟨rfl, rfl⟩, _, _, rfl, _, _, ⟨rfl, rfl⟩, _, _, ⟨hquota, rfl⟩, _, _, ⟨rfl, rfl⟩, rfl⟩ := h
  obtain ⟨rfl, hfound⟩ := vaultOf_ok hvault
  obtain ⟨howner, L, hL, rfl⟩ := vaultByOwner_ok wf hfound
  have hverified := verifyRequest_ok hverify
  obtain ⟨hwf, hledger⟩ := hverified.ledger wf
  obtain ⟨rfl, hdevice, _⟩ := find_ok hexisting
  obtain ⟨rfl, _, hnone⟩ := find_ok hused
  obtain ⟨rfl, hprev, hfirst⟩ := find_ok hprevious
  have hL₁ : tx₁.data.ledger L.vault.id = some L := by rw [hledger]; exact hL
  obtain ⟨hat, hticks₂⟩ := withdraw_at hwf hL₁ hdelete
  obtain ⟨data, ticks, spent⟩ := tx₂
  obtain rfl : ticks = tx.ticks + 3 := hticks₂.trans hverified.ticks
  have hL₂ : (data.purgeExpired (svc.clock (tx.ticks + 3))).ledger L.vault.id =
      some ((L.withdraw previous).expire (svc.clock (tx.ticks + 3))) := by
    simp only [ledger_purgeExpired, hat.here, Option.map_some]
  have hwf₂ := purgeExpired_wf hat.wf (svc.clock (tx.ticks + 3))
  have hput := putPairing_at hwf₂ hL₂
    (offeredPairing L.vault caller offer (svc.clock (tx.ticks + 4))) rfl
  refine ⟨L, previous, hcomplete, howner, hL, hvalid, hverified.signed, fun row hrow => ?_, ?_,
    fun p hp => ?_, fun hn d p hp ht => ?_, ?_, rfl, hput.wf, ?_⟩
  · -- the device table is the one before the request was verified
    have hrow' : tx₁.data.deviceByToken L.vault.id caller.tokenDeviceID = .ok row := by
      rw [hverified.data]
      exact hrow
    cases existing with
    | none =>
      obtain ⟨e, he⟩ := (find_ok hexisting).2.2 rfl
      rw [hrow'] at he
      cases he
    | some device =>
      have hsame := hdevice device rfl
      rw [hrow'] at hsame
      obtain rfl := Except.ok.inj hsame
      by_contra hstate
      exact hrevoked ⟨_, rfl, hstate⟩
  · rw [not_not] at hunused
    obtain ⟨e, he⟩ := hnone hunused
    rw [(ledger_some hL₁).2]
    cases hd : tx₁.data.devices.lookup (key [L.vault.id, offer.deviceID]) with
    | none => exact hd
    | some row => simp [State.device, hd] at he
  · exact pairingByToken_ok hwf hL₁ (hprev p hp)
  · obtain ⟨e, he⟩ := hfirst hn
    obtain ⟨hv, hid⟩ := hwf.pairing_row hL₁ hp
    have hmem := (hwf.mem_pairings hL₁).mpr (show L.pairing p.deviceID = some p by rw [hid]; exact hp)
    unfold pairingByToken at he
    cases hf : tx₁.data.pairings.values.find? (fun q =>
        q.vaultID = L.vault.id ∧ q.tokenDeviceID = caller.tokenDeviceID) with
    | some q => rw [hf] at he; cases he
    | none =>
      have := List.find?_eq_none.mp hf p hmem.1
      simp [hmem.2, ht] at this
  · obtain ⟨ids, hcard, hids⟩ := hwf₂.pairing_ids hL₂
    refine ⟨ids, ?_, hids⟩
    rw [hcard]
    exact not_le.mp hquota
  · have hbook : (data.purgeExpired (svc.clock (tx.ticks + 3))).ledger =
        Function.update (fun w => (tx.data.ledger w).map (Ledger.expire (svc.clock (tx.ticks + 3))))
          L.vault.id (some ((L.withdraw previous).expire (svc.clock (tx.ticks + 3)))) := by
      rw [ledger_purgeExpired, hat.ledger, hledger]
      funext w
      by_cases hw : w = L.vault.id
      · rw [hw, Function.update_self, Function.update_self, Option.map_some]
      · rw [Function.update_of_ne hw, Function.update_of_ne hw]
    have hledger' := hput.ledger
    rw [hbook, Function.update_idem] at hledger'
    exact hledger'

theorem beginPairing_step {offer : PairingOffer}
    (h : svc.beginPairing caller request offer tx = .ok u tx') :
    Refined svc tx (.call ⟨caller, request, .beginPairing offer⟩) tx' := by
  obtain ⟨L, previous, b⟩ := beginPairing_ok wf h
  refine ⟨b.wf, ?_⟩
  rw [b.ledger]
  -- withdrawing the earlier pairing and expiring the old ones commute
  have hfilter : ((L.withdraw previous).expire (svc.clock (tx.ticks + 3))).pairing =
      fun d => if previous.map (·.deviceID) = some d then none
        else (L.expire (svc.clock (tx.ticks + 3))).pairing d := by
    funext d
    simp only [Ledger.withdraw, Ledger.expire]
    split <;> rfl
  rw [hfilter]
  refine .begun b.stored (.offered b.complete b.owner b.valid b.unused fun d hd p hp => ?_)
  obtain ⟨q, hq, rfl⟩ := Option.map_eq_some_iff.mp hd
  obtain ⟨hrow, htoken⟩ := b.own q hq
  have hpq := (Option.filter_eq_some_iff.mp hp).1
  rw [hrow] at hpq
  rw [← Option.some.inj hpq, htoken]

theorem rekey_step {kind : EntryKind} {op : Op} {packages : List KeyPackageV3}
    (isOp : (kind = .remove ∧ op = .remove entry packages) ∨
      (kind = .rotate ∧ op = .rotate entry packages))
    (h : svc.rekey caller request kind entry packages tx = .ok u tx') :
    Refined svc tx (.call ⟨caller, request, op⟩) tx' := by
  simp only [rekey, bind_ok, lift_ok, refuse_ok, now_ok, write_ok, update_ok, onlyIf_ok, query_ok,
    Except.ok.injEq, not_not] at h
  obtain ⟨actor, tx₁, hactor, _, _, ⟨hact, rfl⟩, _, _, ⟨hforeign, rfl⟩, _, _, ⟨_, rfl⟩, list', _,
    hext, _, _, ⟨hcount, rfl⟩, now, _, ⟨_, rfl⟩, _, _, rfl, _, tx₂, hpackages, h⟩ := h
  obtain ⟨_, _, ⟨s₃, happend, rfl⟩, _, tx₄, hcheckpoint, _, _, ⟨rfl, rfl⟩, _, tx₅, hdevices, _, _,
    ⟨rfl, rfl⟩, _, tx₆, hpairings, s₇, hupdate, rfl⟩ := h
  obtain ⟨L, device, own, rfl, hwf, hledger, hL, acts⟩ := signedActor_cases wf hactor
  obtain ⟨rfl, happends⟩ := appends_of hext hL acts hact hforeign
  have hat₁ := deleteKeyPackages_at hwf hL
  obtain ⟨hgood, hnodup, hput⟩ := putPackages_ok packages _ hat₁.wf hat₁.here hpackages
  have hat₂ := hat₁.trans hput
  have hat₃ := hat₂.trans (appendDeviceListEntry_at hat₂.wf hat₂.here happend happends.vault)
  have hat₄ : At tx₁.data L.vault.id (some { L with
      entries := L.entries ++ [entry]
      package := packageFor packages now
      checkpoint := if kind = .remove then Function.update L.checkpoint entry.subjectDeviceID none
        else L.checkpoint }) tx₄.data := by
    simp only [Option.or_none] at hat₃
    rcases hcheckpoint with ⟨hk, hwrite⟩ | ⟨hk, rfl⟩
    · rw [← hwrite, if_pos hk]
      exact hat₃.trans (deleteCheckpoint_at hat₃.wf hat₃.here _)
    · rw [if_neg hk]
      exact hat₃
  have hat₅ := hat₄.trans (rekeyDevices_all hat₄.wf hat₄.here hdevices)
  have hat₆ := hat₅.trans (deletePairings_all hat₅.wf hat₅.here hpairings)
  have hlast := updateVault_at hupdate hat₆.wf hat₆.here rfl
  have hat₇ := hat₆.trans hlast
  -- as many distinct recipients as survivors, each a survivor
  have hrecipients : (packages.map (·.recipientDeviceID)).toFinset =
      survivors ⟨L.vault, device, own⟩ list' := by
    apply Finset.eq_of_subset_of_card_le
    · intro d hd
      obtain ⟨p, hp, rfl⟩ := List.mem_map.mp (List.mem_toFinset.mp hd)
      exact (hgood p hp).2
    · rw [List.toFinset_card_of_nodup hnodup, List.length_map, hcount]
  exact step_of_move hledger hL
    (.rekeyed acts isOp happends (fun p hp => (hgood p hp).1) hrecipients) hat₇

theorem upload_step {header : Header} {ciphertext : Bytes} {accepted : Accepted}
    (h : svc.upload caller request header ciphertext tx = .ok accepted tx') :
    Refined svc tx (.call ⟨caller, request, .upload header ciphertext⟩) tx' := by
  simp only [upload, bind_ok, lift_ok, refuse_ok, orInvalid_ok, query_ok, now_ok, update_ok,
    write_ok, onlyIf_ok, pure_ok] at h
  obtain ⟨actor, tx₁, hactor, _, _, ⟨hact, rfl⟩, _, _, ⟨_, rfl⟩, _, _, ⟨hforeign, rfl⟩, _, _,
    ⟨hstale, rfl⟩, _, _, ⟨hcipher, rfl⟩, list, _, ⟨hload, rfl⟩, previous, _, hprevious, h⟩ := h
  obtain ⟨_, _, ⟨hverified, rfl⟩, _, tx₂, hroom, now, _, ⟨_, rfl⟩, _, _, ⟨s₃, hinsert, rfl⟩,
    _, _, rfl, _, tx₅, hpurge, _, _, ⟨s₆, hupdate, rfl⟩, _, tx₇, hprune, _, rfl⟩ := h
  obtain ⟨L, device, own, rfl, hwf, hledger, hL, acts⟩ := signedActor_cases wf hactor
  obtain ⟨rfl, hlatest⟩ := previousHeader_ok hL hprevious
  push Not at hforeign hstale
  rw [loadList_ledger hL] at hload
  obtain ⟨kept, hkept, hat₂, _⟩ := makeRoom_ok hwf hL hroom
  obtain ⟨_, hat₃'⟩ := insertHeader_at hat₂.wf hat₂.here hforeign.1 hinsert
  have hat₃ := hat₂.trans hat₃'
  have hat₄ := hat₃.trans (putCiphertext_at hat₃.wf hat₃.here header.revision ciphertext)
  -- the new ciphertext is in, the old ones are some of those before, and all fit
  have hnewest : (kept.insert header.revision ciphertext).lookup header.revision =
      some ciphertext := Finmap.lookup_insert _
  have hold : ∀ r c, r ≠ header.revision →
      (kept.insert header.revision ciphertext).lookup r = some c →
      L.ciphertexts.lookup r = some c := by
    intro r c hr hc
    rw [Finmap.lookup_insert_of_ne _ hr] at hc
    exact hkept.sub r c hc
  have hfits : (kept.insert header.revision ciphertext).sumBy List.length ≤ svc.byteBudget :=
    (Finmap.sumBy_insert_le _ _).trans hkept.fits
  obtain ⟨final, hfinal, hat₅⟩ : ∃ final, Kept svc L header ciphertext previous final ∧
      At tx₁.data L.vault.id (some { L with
        header := Function.update L.header header.revision
          (some (storedHeader svc L.vault header now))
        ciphertexts := final }) tx₅.data := by
    rcases hpurge with ⟨_, hwrite⟩ | ⟨hsame, rfl⟩
    · obtain ⟨final, hlook, hat⟩ := deleteCiphertextsBefore_at hat₄.wf hat₄.here header.revision
      refine ⟨final, ⟨?_, fun r c hr hc => ?_, ?_, fun _ r hr => ?_⟩, ?_⟩
      · rw [hlook, if_neg (lt_irrefl _), hnewest]
      · rw [hlook] at hc
        split at hc
        · cases hc
        · exact hold r c hr hc
      · refine (Finmap.sumBy_le List.length fun r c hc => ?_).trans hfits
        rw [hlook] at hc
        split at hc
        · cases hc
        · exact hc
      · rw [hlook, if_pos hr]
      · rw [← hwrite]
        exact hat₄.trans hat
    · exact ⟨_, ⟨hnewest, hold, hfits, fun hx => absurd hx hsame⟩, hat₄⟩
  have hlast := updateVault_at hupdate hat₅.wf hat₅.here rfl
  have hat₆ := hat₅.trans hlast
  have hheaders : At tx₁.data L.vault.id (some { L with
      vault := { L.vault with currentRevision := header.revision, updatedAt := now }
      header := storeHeader svc L.header (storedHeader svc L.vault header now)
      ciphertexts := final }) tx₇.data := by
    rcases hprune with ⟨hmany, hwrite⟩ | ⟨hfew, hwrite⟩
    · have hat := hat₆.trans (pruneHeaders_at hat₆.wf hat₆.here
        (header.revision - svc.headerRetention + 1))
      rw [← hwrite]
      have hfun : storeHeader svc L.header (storedHeader svc L.vault header now) = fun r =>
          if r < header.revision - svc.headerRetention + 1 then none
          else Function.update L.header header.revision
            (some (storedHeader svc L.vault header now)) r := by
        funext r
        simp [storeHeader, storedHeader, hmany]
      rw [hfun]
      exact hat
    · rw [← hwrite]
      have hfun : storeHeader svc L.header (storedHeader svc L.vault header now) =
          Function.update L.header header.revision
            (some (storedHeader svc L.vault header now)) := by
        funext r
        simp [storeHeader, storedHeader, hfew]
      rw [hfun]
      exact hat₆
  exact step_of_move hledger hL (.uploaded acts hact hforeign.2
    ⟨hforeign.1, hstale.1, hstale.2.1, hstale.2.2, hcipher, hlatest, list, hload, hverified⟩ hfinal)
    hheaders

/-- **The code refines the moves.** An operation that succeeds on a well-formed
    store leaves a well-formed store, and the ledgers have made one step. -/
theorem run_step {action : Action} (h : svc.run action tx = .ok u tx') :
    WF tx'.data ∧ Step svc tx.data.ledger action tx'.data.ledger := by
  cases action with
  | adminReset ownerKey => exact adminReset_step wf h
  | maintain => exact maintain_step wf h
  | call call =>
    obtain ⟨caller, request, op⟩ := call
    cases op with
    | createVault entry =>
      obtain ⟨_, _, hop, hpure⟩ := bind_ok.mp h
      obtain ⟨_, rfl⟩ := pure_ok.mp hpure
      exact createVault_step wf hop
    | beginPairing offer => exact beginPairing_step wf h
    | answerPairing deviceID message => exact answerPairing_step wf h
    | confirmPairing message => exact confirmPairing_step wf h
    | cancelPairing deviceID => exact cancelPairing_step wf h
    | approve entry pkg => exact approve_step wf h
    | activate packageDigest => exact activate_step wf h
    | remove entry packages => exact rekey_step wf (Or.inl ⟨rfl, rfl⟩) h
    | rotate entry packages => exact rekey_step wf (Or.inr ⟨rfl, rfl⟩) h
    | upgradeKey entry => exact upgradeKey_step wf h
    | upload header ciphertext =>
      obtain ⟨_, _, hop, hpure⟩ := bind_ok.mp h
      obtain ⟨_, rfl⟩ := pure_ok.mp hpure
      exact upload_step wf hop
    | putCheckpoint checkpoint =>
      obtain ⟨_, _, hop, hpure⟩ := bind_ok.mp h
      obtain ⟨_, rfl⟩ := pure_ok.mp hpure
      exact putCheckpoint_step wf hop
    | reset vaultEpoch => exact reset_step wf h

end Sesame.Syncsvc
