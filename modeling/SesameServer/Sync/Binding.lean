import SesameServer.Sync.Replay

/- What binds a signed request to its vault.

   The signed payload of a request names the method, the target, the body, the
   token, the time and the nonce, but no vault; the vault is found through the
   token, and the nonce is spent in the scope of the vault and the device found.
   A request is then bound to a vault only by its input, where the operation
   compares that with the vault. `Op.bound` is the scope such an input fixes.

   1. `bound_scope`, `activate_package` — what an accepted request says of its vault.
   2. `request_bound_to_vault` — a request accepted twice says nothing of its vault.
   3. `reset_accepted_for_next_vault` — and a reset is accepted twice: once for a
      vault, and again for the vault the owner creates next. -/
namespace Sesame.Syncsvc
open Syncproto Outcome State Service

/-- The nonce scope that the input of an operation fixes. -/
def Op.bound (caller : Caller) : Op → Option Bytes
  | .createVault _ | .beginPairing _ => some (ownerScope caller.ownerKey)
  | .approve entry _ | .remove entry _ | .rotate entry _ | .upgradeKey entry =>
    some (deviceScope entry.vaultID entry.signerDeviceID)
  | .upload header _ => some (deviceScope header.vaultID header.deviceID)
  | .putCheckpoint checkpoint => some (deviceScope checkpoint.vaultID checkpoint.deviceID)
  | .answerPairing _ _ | .confirmPairing _ | .cancelPairing _ | .activate _ | .reset _ => none

variable {svc : Service} {caller : Caller} {request : SignedRequest} {tx tx' : Tx} {u : Unit}
  {scope : Bytes} {sys : Sys}

theorem signedActor_actorFor {actor : Actor} (h : svc.signedActor caller request tx = .ok actor tx') :
    ∃ tx₁, svc.actorFor caller tx = .ok actor tx₁ := by
  simp only [signedActor, bind_ok, pure_ok] at h
  obtain ⟨_, tx₁, hactor, _, _, _, rfl, _⟩ := h
  exact ⟨tx₁, hactor⟩

theorem scopeOf_actor {op : Op} {actor : Actor} (hdevice : op.byOwner = false)
    (h : svc.signedActor caller request tx = .ok actor tx')
    (hscope : scope = deviceScope actor.vault.id actor.device.deviceID) :
    svc.ScopeOf ⟨caller, request, op⟩ tx scope := by
  obtain ⟨tx₁, hactor⟩ := signedActor_actorFor h
  exact (if_neg (by simp [hdevice])).mpr ⟨actor, tx₁, hactor, hscope⟩

theorem foreignEntry_scope {actor : Actor} {kind : EntryKind} {entry : DeviceListEntry}
    (h : ¬foreignEntry actor kind entry) : deviceScope entry.vaultID entry.signerDeviceID =
      deviceScope actor.vault.id actor.device.deviceID := by
  unfold foreignEntry at h
  push Not at h
  rw [h.2.1, h.2.2]

theorem rekey_scope {kind : EntryKind} {entry : DeviceListEntry} {packages : List KeyPackageV3}
    {op : Op} (hdevice : op.byOwner = false)
    (h : svc.rekey caller request kind entry packages tx = .ok u tx') :
    svc.ScopeOf ⟨caller, request, op⟩ tx (deviceScope entry.vaultID entry.signerDeviceID) := by
  simp only [rekey, bind_ok, lift_ok, refuse_ok] at h
  obtain ⟨actor, _, hactor, _, _, _, _, _, ⟨hforeign, _⟩, _⟩ := h
  exact scopeOf_actor hdevice hactor (foreignEntry_scope hforeign)

/-- **An accepted request is made in the scope its input fixes.** -/
theorem bound_scope {call : Call} (h : svc.run (.call call) tx = .ok u tx')
    (hbound : call.op.bound call.caller = some scope) : svc.ScopeOf call tx scope := by
  obtain ⟨caller, request, op⟩ := call
  cases op with
  | createVault entry | beginPairing offer => exact (if_pos rfl).mpr (Option.some.inj hbound).symm
  | answerPairing deviceID message | confirmPairing message | cancelPairing deviceID
  | activate packageDigest | reset vaultEpoch => cases hbound
  | approve entry pkg =>
    obtain rfl := Option.some.inj hbound
    simp only [Service.run, approve, bind_ok, lift_ok, refuse_ok] at h
    obtain ⟨actor, _, hactor, _, _, _, _, _, ⟨hforeign, _⟩, _⟩ := h
    exact scopeOf_actor rfl hactor (foreignEntry_scope hforeign)
  | remove entry packages | rotate entry packages =>
    obtain rfl := Option.some.inj hbound
    exact rekey_scope rfl h
  | upgradeKey entry =>
    obtain rfl := Option.some.inj hbound
    simp only [Service.run, upgradeKey, bind_ok, lift_ok, refuse_ok] at h
    obtain ⟨actor, _, hactor, _, _, _, _, _, ⟨hforeign, _⟩, _⟩ := h
    exact scopeOf_actor rfl hactor (foreignEntry_scope hforeign)
  | upload header ciphertext =>
    obtain rfl := Option.some.inj hbound
    simp only [Service.run, upload, bind_ok, lift_ok, refuse_ok] at h
    obtain ⟨_, _, ⟨actor, _, hactor, _, _, _, _, _, _, _, _, ⟨hforeign, _⟩, _⟩, _⟩ := h
    push Not at hforeign
    exact scopeOf_actor rfl hactor (by rw [hforeign.1, hforeign.2])
  | putCheckpoint checkpoint =>
    obtain rfl := Option.some.inj hbound
    simp only [Service.run, Service.putCheckpoint, bind_ok, lift_ok, refuse_ok] at h
    obtain ⟨_, _, ⟨actor, _, hactor, _, _, _, _, _, ⟨hforeign, _⟩, _⟩, _⟩ := h
    push Not at hforeign
    exact scopeOf_actor rfl hactor (by rw [hforeign.1, hforeign.2])

/-- An accepted `Activate` names the digest of a package for the vault and the device
    it is made for. -/
theorem activate_package {packageDigest : Bytes} (wf : WF tx.data)
    (h : svc.run (.call ⟨caller, request, .activate packageDigest⟩) tx = .ok u tx') :
    ∃ pkg : KeyPackageV3, pkg.digest svc.crypto = packageDigest ∧
      svc.ScopeOf ⟨caller, request, .activate packageDigest⟩ tx
        (deviceScope pkg.vaultID pkg.recipientDeviceID) := by
  simp only [Service.run, activate, bind_ok, lift_ok, query_ok, refuse_ok] at h
  obtain ⟨actor, _, hactor, _, _, ⟨_, rfl⟩, pkg, _, ⟨hfound, rfl⟩, _, _, ⟨hdigest, _⟩, _⟩ := h
  obtain ⟨wf₁, _, L, hL, _⟩ := signedActor_ok wf hactor
  obtain ⟨hvault, hdevice⟩ := wf₁.package_row hL ((keyPackage_ledger hL).mp hfound)
  push Not at hdigest
  exact ⟨pkg.toKeyPackageV3, hdigest.2, scopeOf_actor rfl hactor (by rw [hvault, hdevice])⟩

/-- What an accepted request says of the scope its nonce was spent in. -/
structure Scoped (svc : Service) (call : Call) (spent : SpentNonce) : Prop where
  bound : ∀ scope, call.op.bound call.caller = some scope → spent.scope = scope
  package : ∀ packageDigest, call.op = .activate packageDigest →
    ∃ pkg : KeyPackageV3, pkg.digest svc.crypto = packageDigest ∧
      spent.scope = deviceScope pkg.vaultID pkg.recipientDeviceID

theorem exec_scoped {call : Call} {spent : SpentNonce} (wf : WF tx.data)
    (h : svc.run (.call call) tx = .ok () tx') (hspent : tx'.spent = some spent) :
    Scoped svc call spent := by
  obtain ⟨scope, hscope, _, _, _, _, hverified, hquiet⟩ := (run_spends _).1 _ _ h
  rw [hquiet.spent, hverified.spent] at hspent
  obtain rfl := Option.some.inj hspent
  refine ⟨fun scope' hbound => hscope.unique (bound_scope h hbound), fun packageDigest hop => ?_⟩
  obtain ⟨caller, request, op⟩ := call
  obtain rfl := hop
  obtain ⟨pkg, hdigest, hscope'⟩ := activate_package wf h
  exact ⟨pkg, hdigest, hscope.unique hscope'⟩

theorem Run.scoped {P : Sys → Action → Prop} {events : List Event} (run : Run svc P events sys) :
    ∀ call spent, Event.ran (.call call) none (some spent) ∈ events → Scoped svc call spent := by
  intro call spent he
  obtain ⟨_, _, _, past, hrun, hspent⟩ := run.accepted call _ he
  exact exec_scoped past.wf hrun hspent

/-- **What a request accepted twice does not say.** In every run under a steady clock
    whose operations are prompt, a request that is accepted again has an operation
    whose input fixes no scope, and is accepted for another vault or device. If it
    activates a device, the digest it names is that of two packages, one for each. -/
theorem request_bound_to_vault {events : List Event} (steady : Steady svc)
    (run : Run svc (Prompt svc) events sys) :
    events.Pairwise fun earlier later => ∀ call spent spent',
      earlier = .ran (.call call) none (some spent) →
      later = .ran (.call call) none (some spent') →
      call.op.bound call.caller = none ∧ spent.scope ≠ spent'.scope ∧
        ∀ packageDigest, call.op = .activate packageDigest →
          ∃ pkg pkg' : KeyPackageV3, pkg.digest svc.crypto = packageDigest ∧
            pkg'.digest svc.crypto = packageDigest ∧
            spent.scope = deviceScope pkg.vaultID pkg.recipientDeviceID ∧
            spent'.scope = deviceScope pkg'.vaultID pkg'.recipientDeviceID := by
  refine (run.no_replay steady).imp_of_mem fun {earlier later} he hl hno call spent spent' => ?_
  rintro rfl rfl
  have hscoped := run.scoped call spent he
  have hscoped' := run.scoped call spent' hl
  have hne : spent.scope ≠ spent'.scope :=
    fun hscope => hno ⟨call, call, spent, spent', Or.inl rfl, rfl, hscope, rfl, rfl⟩
  refine ⟨?_, hne, fun packageDigest hop => ?_⟩
  · cases hbound : call.op.bound call.caller with
    | none => rfl
    | some scope =>
      exact absurd ((hscoped.bound _ hbound).trans (hscoped'.bound _ hbound).symm) hne
  · obtain ⟨pkg, hdigest, hscope⟩ := hscoped.package packageDigest hop
    obtain ⟨pkg', hdigest', hscope'⟩ := hscoped'.package packageDigest hop
    exact ⟨pkg, pkg', hdigest, hdigest', hscope, hscope'⟩

namespace Demo

/-- The vault the owner creates after the first. -/
def nextVaultID : Bytes := utf8 "demo-vault-00002"

/-- Device 1 creates a vault, resets it, creates the next vault under another id, and
    the very request of the reset arrives once more. -/
def resets : List Action :=
  created ++ [.call (call 1 1000 2 (.reset 1)),
    .call (call 1 1000 3 (.createVault (createEntry nextVaultID 1))),
    .call (call 1 1000 2 (.reset 1))]

/-- **The reset of one vault resets the next.** All four requests are accepted, and the
    vault created last is gone. -/
theorem reset_accepted_for_next_vault :
    Run (service (still 1000)) Any (execAll (service (still 1000)) resets start).1
      (execAll (service (still 1000)) resets start).2 ∧
    (execAll (service (still 1000)) resets start).1.map Event.accepted =
      [true, true, true, true] ∧
    (execAll (service (still 1000)) resets start).2.data.vaults.lookup nextVaultID = none :=
  ⟨execAll_start _ resets, by decide +kernel, by decide +kernel⟩

theorem request_bound_to_vault_resets :
    (execAll (service (still 1000)) resets start).1.Pairwise fun earlier later =>
      ∀ call spent spent', earlier = .ran (.call call) none (some spent) →
        later = .ran (.call call) none (some spent') →
        call.op.bound call.caller = none ∧ spent.scope ≠ spent'.scope := by
  have first : Run (service (still 1000)) (Prompt (service (still 1000))) [] start := .start
  have run := execAll_run resets (fun sys action _ => still_prompt 1000 sys action) first
  refine (request_bound_to_vault (still_steady 1000) run).imp ?_
  intro earlier later h call spent spent' he hl
  obtain ⟨hbound, hscope, _⟩ := h call spent spent' he hl
  exact ⟨hbound, hscope⟩

end Demo

end Sesame.Syncsvc
