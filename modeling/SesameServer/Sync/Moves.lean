import SesameServer.Sync.Loops

/- The sync service as a transition system on ledgers, and that the code is one.

   `Move svc L call L'` says what a signed call does to the ledger of the vault
   it acts on, with what the code checked first; `Step` lifts it to the book of
   all vaults, and adds opening, closing and expiry. `run_step` is the
   refinement: an operation that succeeds on a well-formed store leaves a
   well-formed store, and its ledgers have made one `Step`. Every invariant of
   stored vaults is proved on `Step`. -/
namespace Sesame.Syncsvc
open Syncproto Outcome State Service

/-- The device list a ledger's entries load to. -/
def Ledger.Loads (crypto : Crypto) (L : Ledger) (list : DeviceList) : Prop :=
  loadPages crypto L.entries maxEntriesPerPage (L.entries.length + 1) 0 newDeviceList = .ok list

/-- The checks on an entry that an activated device appends to its vault's list. -/
structure Appends (svc : Service) (L : Ledger) (actor : Actor) (kind : EntryKind)
    (entry : DeviceListEntry) (list' : DeviceList) : Prop where
  activated : requireActivated actor = .ok ()
  kind : entry.kind = kind.text
  signer : entry.signerDeviceID = actor.device.deviceID
  vault : entry.vaultID = L.vault.id
  grown : ∃ list, L.Loads svc.crypto list ∧ DeviceList.extend svc.crypto entry list = .ok () list'

/-- A key package for one new device. -/
structure WelcomePackage (svc : Service) (L : Ledger) (actor : Actor) (entry : DeviceListEntry)
    (pkg : KeyPackageV3) : Prop where
  vault : pkg.vaultID = L.vault.id
  sender : pkg.senderDeviceID = actor.device.deviceID
  recipient : pkg.recipientDeviceID = entry.subjectDeviceID
  epoch : pkg.vaultEpoch = L.vault.epoch
  digest : pkg.entryDigest = entry.digest svc.crypto
  verified : pkg.verify svc.crypto actor.device.signingKey = .ok ()

structure Follows (svc : Service) (L : Ledger) (header : Header) (ciphertext : Bytes)
    (previous : Option Header) : Prop where
  vault : header.vaultID = L.vault.id
  revision : checkedNext L.vault.currentRevision = some header.revision
  epoch : header.vaultEpoch = L.vault.epoch
  index : header.deviceListIndex = L.vault.headIndex
  ciphertext : header.verifyCiphertext svc.crypto ciphertext = .ok ()
  latest : (L.vault.currentRevision = 0 ∧ previous = none) ∨
    (0 < L.vault.currentRevision ∧ ∃ stored, previous = some stored.header ∧
      header.previousDigest = stored.digest ∧ (∃ r, L.header r = some stored) ∧
      ∀ r other, L.header r = some other → other.header.revision ≤ stored.header.revision)
  verified : ∃ list, L.Loads svc.crypto list ∧
    verifyHeader svc.crypto list previous header = .ok ()

/-- The ciphertexts after an upload: the new one, and some of the old ones. -/
structure Kept (svc : Service) (L : Ledger) (header : Header) (ciphertext : Bytes)
    (previous : Option Header) (kept : Finmap (fun _ : Nat => Bytes)) : Prop where
  newest : kept.lookup header.revision = some ciphertext
  old : ∀ r c, r ≠ header.revision → kept.lookup r = some c → L.ciphertexts.lookup r = some c
  fits : kept.sumBy List.length ≤ svc.byteBudget
  purged : (∃ earlier ∈ previous, earlier.vaultEpoch < header.vaultEpoch) →
    ∀ r < header.revision, kept.lookup r = none

def storedHeader (svc : Service) (vault : Vault) (header : Header) (now : Time) : StoredHeader :=
  ⟨header, header.digest svc.crypto,
    Encoding.encode ((svc.receiptFor vault header now).sign svc.crypto svc.receiptKey), now⟩

/-- The headers after one more is stored and the oldest are pruned. -/
def storeHeader (svc : Service) (headers : Nat → Option StoredHeader) (stored : StoredHeader) :
    Nat → Option StoredHeader := fun r =>
  if svc.headerRetention < stored.header.revision ∧
      r < stored.header.revision - svc.headerRetention + 1 then none
  else Function.update headers stored.header.revision (some stored) r

/-- What a signed call does to the ledger of the vault it acts on. -/
inductive Move (svc : Service) (L : Ledger) : Call → Ledger → Prop
  | offered {caller : Caller} {request : SignedRequest} {offer : PairingOffer}
      {previous : Option Bytes} {now : Time} (complete : ¬caller.incomplete)
      (owner : L.vault.ownerKey = caller.ownerKey)
      (valid : (pairingProbe L.vault offer).validate = .ok ())
      (unused : L.device offer.deviceID = none)
      (own : ∀ d ∈ previous, ∀ p, L.pairing d = some p →
        p.tokenDeviceID = caller.tokenDeviceID) :
      Move svc L ⟨caller, request, .beginPairing offer⟩ { L with
        pairing := Function.update (fun d => if previous = some d then none else L.pairing d)
          offer.deviceID (some
            { vaultID := L.vault.id, deviceID := offer.deviceID,
              tokenDeviceID := caller.tokenDeviceID, signingKey := offer.signingKey,
              packageKey := offer.packageKey, offer := offer.message, state := .offered,
              expiresAt := now + pairingLifetime, createdAt := now }) }
  | answered {caller : Caller} {request : SignedRequest} {deviceID message : Bytes}
      {actor : Actor} {pairing : Pairing} {now : Time} (acts : ActsAs caller L actor)
      (activated : requireActivated actor = .ok ())
      (found : L.pairing deviceID = some pairing) (state : pairing.state = .offered)
      (live : now < pairing.expiresAt) :
      Move svc L ⟨caller, request, .answerPairing deviceID message⟩ { L with
        pairing := Function.update L.pairing deviceID
          (some { pairing with answer := message, state := .answered }) }
  | confirmed {caller : Caller} {request : SignedRequest} {message : Bytes} {actor : Actor}
      {pairing : Pairing} (acts : ActsAs caller L actor) (own : actor.pairing = some pairing)
      (state : pairing.state = .answered) :
      Move svc L ⟨caller, request, .confirmPairing message⟩ { L with
        pairing := Function.update L.pairing pairing.deviceID
          (some { pairing with confirm := message, state := .confirmed }) }
  | cancelled {caller : Caller} {request : SignedRequest} {deviceID d : Bytes} {actor : Actor}
      (acts : ActsAs caller L actor)
      (allowed : (∃ pairing, actor.pairing = some pairing ∧ d = pairing.deviceID) ∨
        (requireApproved actor = .ok () ∧ d = deviceID)) :
      Move svc L ⟨caller, request, .cancelPairing deviceID⟩ { L with
        pairing := Function.update L.pairing d none }
  | approved {caller : Caller} {request : SignedRequest} {entry : DeviceListEntry}
      {pkg : KeyPackageV3} {actor : Actor} {pairing : Pairing} {list' : DeviceList}
      {checked now : Time} (acts : ActsAs caller L actor)
      (appends : Appends svc L actor .add entry list')
      (found : L.pairing entry.subjectDeviceID = some pairing) (state : pairing.state = .confirmed)
      (live : checked < pairing.expiresAt)
      (keys : pairing.signingKey = entry.subjectSigningKey ∧
        pairing.packageKey = entry.subjectPackageKey)
      (package : WelcomePackage svc L actor entry pkg)
      (token : ∀ d other, L.device d = some other →
        other.tokenDeviceID = pairing.tokenDeviceID → d ≠ entry.subjectDeviceID →
        other.state = .revoked) :
      Move svc L ⟨caller, request, .approve entry pkg⟩ { L with
        vault := { L.vault with headIndex := entry.index, updatedAt := now }
        entries := L.entries ++ [entry]
        device := Function.update L.device entry.subjectDeviceID (some
          { vaultID := L.vault.id, deviceID := entry.subjectDeviceID,
            tokenDeviceID := pairing.tokenDeviceID, signingKey := entry.subjectSigningKey,
            packageKey := entry.subjectPackageKey, state := .approved,
            addedIndex := entry.index, createdAt := now })
        package := Function.update L.package entry.subjectDeviceID
          (some { pkg with createdAt := now })
        pairing := Function.update L.pairing entry.subjectDeviceID none }
  | activated {caller : Caller} {request : SignedRequest} {packageDigest : Bytes} {actor : Actor}
      {pkg : KeyPackage} (acts : ActsAs caller L actor)
      (approved : requireApproved actor = .ok ())
      (found : L.package actor.device.deviceID = some pkg)
      (epoch : pkg.vaultEpoch = L.vault.epoch)
      (digest : pkg.toKeyPackageV3.digest svc.crypto = packageDigest) :
      Move svc L ⟨caller, request, .activate packageDigest⟩ { L with
        device := Function.update L.device actor.device.deviceID
          (some { actor.device with activatedEpoch := L.vault.epoch }) }
  | rekeyed {caller : Caller} {request : SignedRequest} {kind : EntryKind} {op : Op}
      {entry : DeviceListEntry} {packages : List KeyPackageV3} {actor : Actor}
      {list' : DeviceList} {now : Time} (acts : ActsAs caller L actor)
      (isOp : (kind = .remove ∧ op = .remove entry packages) ∨
        (kind = .rotate ∧ op = .rotate entry packages))
      (appends : Appends svc L actor kind entry list')
      (good : ∀ pkg ∈ packages, GoodPackage svc actor entry pkg)
      (recipients : (packages.map (·.recipientDeviceID)).toFinset = survivors actor list') :
      Move svc L ⟨caller, request, op⟩ { L with
        vault := { L.vault with
          headIndex := entry.index, epoch := entry.epochAfter, updatedAt := now }
        entries := L.entries ++ [entry]
        device := fun d => (L.device d).map (Service.rekeyed actor kind entry)
        package := packageFor packages now
        pairing := fun _ => none
        checkpoint := if kind = .remove then Function.update L.checkpoint entry.subjectDeviceID none
          else L.checkpoint }
  | upgraded {caller : Caller} {request : SignedRequest} {entry : DeviceListEntry} {actor : Actor}
      {list' : DeviceList} {now : Time} (acts : ActsAs caller L actor)
      (appends : Appends svc L actor .key entry list') :
      Move svc L ⟨caller, request, .upgradeKey entry⟩ { L with
        vault := { L.vault with headIndex := entry.index, updatedAt := now }
        entries := L.entries ++ [entry]
        device := Function.update L.device actor.device.deviceID
          (some { actor.device with packageKey := entry.subjectPackageKey }) }
  | uploaded {caller : Caller} {request : SignedRequest} {header : Header} {ciphertext : Bytes}
      {actor : Actor} {previous : Option Header} {kept : Finmap (fun _ : Nat => Bytes)}
      {now : Time} (acts : ActsAs caller L actor) (activated : requireActivated actor = .ok ())
      (device : header.deviceID = actor.device.deviceID)
      (follows : Follows svc L header ciphertext previous)
      (room : Kept svc L header ciphertext previous kept) :
      Move svc L ⟨caller, request, .upload header ciphertext⟩ { L with
        vault := { L.vault with currentRevision := header.revision, updatedAt := now }
        header := storeHeader svc L.header (storedHeader svc L.vault header now)
        ciphertexts := kept }
  | checkpointed {caller : Caller} {request : SignedRequest} {checkpoint : Checkpoint}
      {actor : Actor} {checked now : Time} (acts : ActsAs caller L actor)
      (activated : requireActivated actor = .ok ())
      (vault : checkpoint.vaultID = L.vault.id)
      (device : checkpoint.deviceID = actor.device.deviceID)
      (verified : checkpoint.verify svc.crypto actor.device.signingKey = .ok ())
      (skew : withinSkew checkpoint.observedAt (unixSeconds checked).toNat = true) :
      Move svc L ⟨caller, request, .putCheckpoint checkpoint⟩ { L with
        checkpoint := Function.update L.checkpoint checkpoint.deviceID
          (some { checkpoint with acceptedAt := now }) }

def opening (caller : Caller) (entry : DeviceListEntry) (list : DeviceList) (now : Time) : Ledger :=
  { Ledger.blank { id := entry.vaultID, ownerKey := caller.ownerKey, epoch := list.epoch,
                   headIndex := 1, createdAt := now, updatedAt := now } with
    entries := [entry]
    device := Function.update (fun _ => none) entry.subjectDeviceID (some
      { vaultID := entry.vaultID, deviceID := entry.subjectDeviceID,
        tokenDeviceID := caller.tokenDeviceID, signingKey := entry.subjectSigningKey,
        packageKey := entry.subjectPackageKey, state := .approved, addedIndex := 1,
        activatedEpoch := list.epoch, createdAt := now }) }

/-- One operation on the book of all vaults. -/
inductive Step (svc : Service) (book : Book) : Action → Book → Prop
  | opened {caller : Caller} {request : SignedRequest} {entry : DeviceListEntry}
      {list : DeviceList} {now : Time} (complete : ¬caller.incomplete)
      (fresh : book entry.vaultID = none)
      (verified : verifyDeviceList svc.crypto [entry] = .ok list) :
      Step svc book (.call ⟨caller, request, .createVault entry⟩)
        (Function.update book entry.vaultID (some (opening caller entry list now)))
  | begun {caller : Caller} {request : SignedRequest} {offer : PairingOffer} {v : Bytes}
      {L L' : Ledger} {now : Time} (stored : book v = some L)
      (move : Move svc (L.expire now) ⟨caller, request, .beginPairing offer⟩ L') :
      Step svc book (.call ⟨caller, request, .beginPairing offer⟩)
        (Function.update (fun w => (book w).map (Ledger.expire now)) v (some L'))
  | moved {call : Call} {v : Bytes} {L L' : Ledger} (stored : book v = some L)
      (move : Move svc L call L') :
      Step svc book (.call call) (Function.update book v (some L'))
  | reset {caller : Caller} {request : SignedRequest} {v : Bytes} {L : Ledger} {actor : Actor}
      {vaultEpoch : Nat} (stored : book v = some L) (acts : ActsAs caller L actor)
      (approved : requireApproved actor = .ok ()) (epoch : vaultEpoch = L.vault.epoch) :
      Step svc book (.call ⟨caller, request, .reset vaultEpoch⟩) (Function.update book v none)
  | adminReset {ownerKey v : Bytes} {L : Ledger} (stored : book v = some L)
      (owner : L.vault.ownerKey = ownerKey) :
      Step svc book (.adminReset ownerKey) (Function.update book v none)
  | maintained {now : Time} :
      Step svc book .maintain (fun w => (book w).map (Ledger.expire now))

/-- **The induction on steps.** What every new ledger has, every move keeps and
    expiry does not touch, every ledger of the book has after a step. -/
theorem Step.forall {svc : Service} {book book' : Book} {action : Action} {Q : Ledger → Prop}
    (step : Step svc book action book') (opened : ∀ caller entry list now, ¬caller.incomplete →
      verifyDeviceList svc.crypto [entry] = .ok list → Q (opening caller entry list now))
    (expired : ∀ L now, Q L → Q (L.expire now))
    (moved : ∀ L call L', action = .call call → Move svc L call L' → Q L → Q L')
    (h : ∀ v L, book v = some L → Q L) : ∀ v L, book' v = some L → Q L := by
  have hexpired : ∀ now v L, (book v).map (Ledger.expire now) = some L → Q L := by
    intro now v L hL
    obtain ⟨L₀, h₀, rfl⟩ := Option.map_eq_some_iff.mp hL
    exact expired L₀ now (h v L₀ h₀)
  have hupdate : ∀ (b : Book) (v : Bytes) (x : Option Ledger), (∀ w L, b w = some L → Q L) →
      (∀ L, x = some L → Q L) → ∀ w L, Function.update b v x w = some L → Q L := by
    intro b v x hb hx w L hL
    rw [Function.update_apply] at hL
    split at hL
    · exact hx L hL
    · exact hb w L hL
  cases step with
  | opened complete fresh verified =>
    refine hupdate _ _ _ h fun L hL => ?_
    obtain rfl := Option.some.inj hL
    exact opened _ _ _ _ complete verified
  | begun stored move =>
    refine hupdate _ _ _ (hexpired _) fun L hL => ?_
    obtain rfl := Option.some.inj hL
    exact moved _ _ _ rfl move (expired _ _ (h _ _ stored))
  | moved stored move =>
    refine hupdate _ _ _ h fun L hL => ?_
    obtain rfl := Option.some.inj hL
    exact moved _ _ _ rfl move (h _ _ stored)
  | reset stored acts approved epoch | adminReset stored owner =>
    exact hupdate _ _ _ h fun L hL => by cases hL
  | maintained => exact hexpired _

end Sesame.Syncsvc
