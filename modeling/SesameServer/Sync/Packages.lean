import SesameServer.Sync.Tokens

/- No survivor is stranded.

   A device that is not activated at its vault's epoch has one way on: the key
   package stored for it. `Supplied` says that the package is there, made for
   this epoch by a member of the list, and that nobody but approved devices has
   one. `rekey` makes that hold again each time: it deletes every package and
   stores one for each current member but the actor, which it activates itself.

   1. `Usable.grows` — a package stays usable when the list grows.
   2. `Supplied.moved` — every move keeps the supply.
   3. `activate_run` — a device with a usable package can activate.
   4. `no_survivor_stranded` — so it holds in every run. -/
namespace Sesame.Syncsvc
open Syncproto Outcome State Service DeviceList

/-- A package of the vault's epoch, for an entry that its sender signed, verified
    under the sender's key in the list. -/
structure Usable (crypto : Crypto) (epoch : Nat) (entries : List DeviceListEntry)
    (list : DeviceList) (pkg : KeyPackage) : Prop where
  epoch : pkg.vaultEpoch = epoch
  entry : ∃ entry ∈ entries, pkg.entryDigest = entry.digest crypto ∧
    entry.signerDeviceID = pkg.senderDeviceID
  sender : ∃ member, list.member pkg.senderDeviceID = some member ∧
    pkg.toKeyPackageV3.verify crypto member.signingKey = .ok ()

/-- Every package is usable and for an approved device, and every approved device
    is activated or has one. -/
structure Supplied (crypto : Crypto) (L : Ledger) (list : DeviceList) : Prop where
  packages : ∀ d pkg, L.package d = some pkg →
    Usable crypto L.vault.epoch L.entries list pkg ∧
      ∃ row, L.device d = some row ∧ row.state = .approved
  devices : ∀ d row, L.device d = some row → row.state = .approved →
    row.activatedEpoch = L.vault.epoch ∨ ∃ pkg, L.package d = some pkg

variable {svc : Service} {crypto : Crypto} {L L' : Ledger} {list list' : DeviceList}
  {entry : DeviceListEntry} {actor : Actor} {kind : EntryKind} {caller : Caller}

variable {pkg : KeyPackage} {d : Bytes} {row : Device} {packages : List KeyPackageV3} {now : Time}

theorem Usable.grows {epoch : Nat} {entries : List DeviceListEntry}
    (h : Usable crypto epoch entries list pkg) (g : Grows crypto entry list list')
    (hi : entry.index = list.head + 1) (wf : DeviceList.WF list) :
    Usable crypto epoch (entries ++ [entry]) list' pkg := by
  obtain ⟨e, he, hdigest⟩ := h.entry
  obtain ⟨m, hm, hverify⟩ := h.sender
  obtain ⟨m', hm', hkey, _⟩ := g.member_stable hi wf hm
  exact ⟨h.epoch, ⟨e, List.mem_append_left _ he, hdigest⟩, m', hm', by rw [hkey]; exact hverify⟩

theorem Usable.appended (h : Agrees svc.crypto L list) (acts : ActsAs caller L actor)
    (a : Appends svc L actor kind entry list') {epoch : Nat}
    (hepoch : pkg.vaultEpoch = epoch) (hsender : pkg.senderDeviceID = actor.device.deviceID)
    (hdigest : pkg.entryDigest = entry.digest svc.crypto)
    (hverify : pkg.toKeyPackageV3.verify svc.crypto actor.device.signingKey = .ok ()) :
    Usable svc.crypto epoch (L.entries ++ [entry]) list' pkg := by
  obtain ⟨_, _, hindex, g⟩ := h.grown a
  obtain ⟨m, hm, hmatch⟩ := h.row (acts.row (requireActivated_ok a.activated).1)
  obtain ⟨m', hm', hkey, _⟩ := g.member_stable hindex h.wf hm
  refine ⟨hepoch, ⟨entry, by simp, hdigest, ?_⟩, m', ?_, ?_⟩
  · rw [a.signer, hsender]
  · rw [hsender]
    exact hm'
  · rw [hkey, ← hmatch.signingKey]
    exact hverify

theorem Supplied.grown (h : Supplied svc.crypto L list) (ha : Agrees svc.crypto L list)
    (a : Appends svc L actor kind entry list') (hp : L.package d = some pkg) :
    Usable svc.crypto L.vault.epoch (L.entries ++ [entry]) list' pkg := by
  obtain ⟨_, _, hindex, g⟩ := ha.grown a
  exact (h.packages d pkg hp).1.grows g hindex ha.wf

theorem Supplied.rewrite (h : Supplied svc.crypto L list) {row' : Device}
    (hdevice : L'.device = Function.update L.device row.deviceID (some row'))
    (hr : L.device row.deviceID = some row) (happroved : row'.state = .approved)
    (hactivated : row'.activatedEpoch = L.vault.epoch ∨ row'.activatedEpoch = row.activatedEpoch)
    (hstate : row.state = .approved) (hpackage : L'.package = L.package)
    (hepoch : L'.vault.epoch = L.vault.epoch) (usable : ∀ d pkg, L.package d = some pkg →
      Usable svc.crypto L'.vault.epoch L'.entries list' pkg) : Supplied svc.crypto L' list' := by
  refine ⟨fun d pkg hp => ?_, fun d x hx hs => ?_⟩
  · rw [hpackage] at hp
    refine ⟨usable d pkg hp, ?_⟩
    rw [hdevice, Function.update_apply]
    split
    · exact ⟨row', rfl, happroved⟩
    · exact (h.packages d pkg hp).2
  · rw [hepoch, hpackage]
    rw [hdevice, Function.update_apply] at hx
    split at hx
    · next e =>
      obtain rfl := Option.some.inj hx
      rcases hactivated with hnow | hsame
      · exact Or.inl hnow
      · rw [e, hsame]
        exact h.devices _ row hr hstate
    · exact h.devices d x hx hs

/-- The survivors of a rekey are the approved devices other than the actor. -/
theorem mem_survivors (h : Agrees crypto L list) : d ∈ survivors actor list ↔
      d ≠ actor.device.deviceID ∧ ∃ row, L.device d = some row ∧ row.state = .approved := by
  simp only [survivors, List.mem_toFinset, List.mem_filter, decide_eq_true_eq, h.current_iff]
  exact and_comm

theorem packageFor_some (h : packageFor packages now d = some pkg) :
    pkg.toKeyPackageV3 ∈ packages ∧ pkg.recipientDeviceID = d := by
  obtain ⟨p, hp, rfl⟩ := Option.map_eq_some_iff.mp h
  exact ⟨List.mem_of_find?_eq_some hp, by simpa using List.find?_some hp⟩

theorem packageFor_of_mem
    (h : d ∈ packages.map (·.recipientDeviceID)) : ∃ pkg, packageFor packages now d = some pkg := by
  obtain ⟨p, hp, rfl⟩ := List.mem_map.mp h
  have hsome : (packages.find? (fun q => q.recipientDeviceID = p.recipientDeviceID)).isSome = true :=
    List.find?_isSome.mpr ⟨p, hp, by simp⟩
  obtain ⟨q, hq⟩ := Option.isSome_iff_exists.mp hsome
  exact ⟨_, by rw [packageFor, hq, Option.map_some]⟩

/-- A rekey leaves the actor, if it stays approved, activated at the new epoch. -/
theorem rekeyed_activated (hid : row.deviceID = actor.device.deviceID)
    (hstate : (rekeyed actor kind entry row).state = .approved) :
    (rekeyed actor kind entry row).activatedEpoch = entry.epochAfter := by
  have hold := (rekeyed_fields actor kind entry row).2.2.2.2.2
  rw [hstate] at hold
  split at hold
  · cases hold
  · next hstay =>
    unfold Service.rekeyed rekeyDevice
    rw [if_neg hstay, if_pos ⟨hid, hold.symm⟩]
    rfl

/-- **A rekey supplies every survivor.** -/
theorem Supplied.rekeyed (ha : Agrees svc.crypto L list) (ha' : Agrees svc.crypto L' list')
    (acts : ActsAs caller L actor) (a : Appends svc L actor kind entry list')
    (good : ∀ pkg ∈ packages, GoodPackage svc actor entry pkg)
    (recipients : (packages.map (·.recipientDeviceID)).toFinset = survivors actor list')
    (hepoch : L'.vault.epoch = entry.epochAfter) (hentries : L'.entries = L.entries ++ [entry])
    (hdevice : ∀ d, L'.device d = (L.device d).map (rekeyed actor kind entry))
    (hpackage : L'.package = packageFor packages now) : Supplied svc.crypto L' list' := by
  have hmem : ∀ d, d ∈ packages.map (·.recipientDeviceID) ↔
      d ≠ actor.device.deviceID ∧ ∃ row, L'.device d = some row ∧ row.state = .approved := by
    intro d
    rw [← mem_survivors ha', ← recipients, List.mem_toFinset]
  refine ⟨fun d pkg hp => ?_, fun d row' hr' hs => ?_⟩
  · rw [hpackage] at hp
    obtain ⟨hin, hto⟩ := packageFor_some hp
    have hgood := good _ hin
    refine ⟨?_, ((hmem d).mp (List.mem_map.mpr ⟨_, hin, hto⟩)).2⟩
    rw [hepoch, hentries]
    exact .appended ha acts a hgood.epoch hgood.sender hgood.digest hgood.verified
  · rw [hepoch, hpackage]
    by_cases hactor : d = actor.device.deviceID
    · rw [hdevice] at hr'
      obtain ⟨row, hr, rfl⟩ := Option.map_eq_some_iff.mp hr'
      exact Or.inl (rekeyed_activated ((ha.ids d row hr).trans hactor) hs)
    · exact Or.inr (packageFor_of_mem ((hmem d).mpr ⟨hactor, row', hr', hs⟩))

theorem Supplied.opened : Supplied crypto (opening caller entry list now) list := by
  refine ⟨fun _ _ hp => (by cases hp), fun d row hr _ => Or.inl ?_⟩
  simp only [opening, Function.update_apply] at hr
  split at hr
  · rw [← Option.some.inj hr]
    rfl
  · cases hr

/-- **Every move keeps the supply.** -/
theorem Supplied.moved {call : Call} (move : Move svc L call L') (ha : Agrees svc.crypto L list)
    (ha' : Agrees svc.crypto L' list') (h : Supplied svc.crypto L list) :
    Supplied svc.crypto L' list' := by
  -- the entries decide the list
  have hlist : ∀ l, verifyDeviceList svc.crypto L'.entries = .ok l → l = list' :=
    fun l hl => Except.ok.inj (hl.symm.trans ha'.verified)
  cases move with
  | offered | answered | confirmed | cancelled | uploaded | checkpointed =>
    obtain rfl := hlist list ha.verified
    exact ⟨h.packages, h.devices⟩
  | activated acts approved =>
    obtain rfl := hlist list ha.verified
    obtain ⟨hpairing, hstate⟩ := requireApproved_ok approved
    exact h.rewrite rfl (acts.row hpairing) hstate (Or.inl rfl) hstate rfl rfl
      (fun d pkg hp => (h.packages d pkg hp).1)
  | upgraded acts appends =>
    obtain rfl := hlist _ (ha.grown appends).1
    obtain ⟨hpairing, hstate, _⟩ := requireActivated_ok appends.activated
    exact h.rewrite rfl (acts.row hpairing) hstate (Or.inr rfl) hstate rfl rfl
      (fun d pkg hp => h.grown ha appends hp)
  | rekeyed acts isOp appends good recipients =>
    obtain rfl := hlist _ (ha.grown appends).1
    exact .rekeyed ha ha' acts appends good recipients rfl rfl (fun _ => rfl) rfl
  | @approved _ _ entry _ _ _ _ _ _ acts appends found state live keys package token =>
    obtain rfl := hlist _ (ha.grown appends).1
    refine ⟨fun d pkg hp => ?_, fun d row hr hs => ?_⟩
    · simp only [Function.update_apply] at hp ⊢
      split at hp
      · next e =>
        obtain rfl := Option.some.inj hp
        refine ⟨.appended ha acts appends package.epoch package.sender package.digest
          package.verified, ?_⟩
        rw [if_pos e]
        exact ⟨_, rfl, rfl⟩
      · next e =>
        rw [if_neg e]
        exact ⟨h.grown ha appends hp, (h.packages d pkg hp).2⟩
    · simp only [Function.update_apply] at hr ⊢
      split at hr
      · next e =>
        rw [if_pos e]
        exact Or.inr ⟨_, rfl⟩
      · next e =>
        rw [if_neg e]
        exact h.devices d row hr hs

/-- In every run, every stored vault's ledger agrees with its list and is supplied. -/
theorem Run.supplied {P : Sys → Action → Prop} {events : List Event} {sys : Sys}
    (run : Run svc P events sys) : WF sys.data ∧ ∀ v L, sys.data.ledger v = some L →
      ∃ list, Agrees svc.crypto L list ∧ Supplied svc.crypto L list :=
  run.agreed (fun _ _ _ _ => .opened) (fun _ _ _ hs => ⟨hs.packages, hs.devices⟩)
    fun _ _ _ _ _ hmove ha ha' hs => hs.moved hmove ha ha'

/-- **A supplied device can activate**: an approved device whose request verifies
    succeeds when it names the digest of its package of the vault's epoch. -/
theorem activate_run {tx tx₁ : Tx} {v : Bytes} {request : SignedRequest}
    (ht : L.Tokens) (wf : WF tx.data) (hL : tx.data.ledger v = some L)
    (hr : L.device d = some row) (hstate : row.state = .approved) (hp : L.package d = some pkg)
    (hepoch : pkg.vaultEpoch = L.vault.epoch) (calls : Calls caller L.vault row)
    (verified : svc.verifyRequest (deviceScope L.vault.id row.deviceID) row.signingKey caller
      request tx = .ok () tx₁) :
    ∃ tx₂, svc.activate caller request (pkg.toKeyPackageV3.digest svc.crypto) tx = .ok () tx₂ := by
  have hlive : row.state ≠ .revoked := by rw [hstate]; decide
  have hactor : svc.actorFor caller tx = .ok ⟨L.vault, row, none⟩ tx :=
    ht.actorFor wf hL hr hlive calls
  have happroved : requireApproved ⟨L.vault, row, none⟩ = .ok () := by
    simp [requireApproved, check_ok, hstate]
  have hsigned : svc.signedActor caller request tx = .ok ⟨L.vault, row, none⟩ tx₁ := by
    unfold signedActor
    rw [bind_run hactor, bind_run verified]
    rfl
  obtain ⟨wf₁, hledger⟩ := (verifyRequest_ok verified).ledger wf
  have hL₁ : tx₁.data.ledger v = some L := by rw [hledger]; exact hL
  obtain ⟨hrv, hrd⟩ := wf.device_row hL hr
  have hid := wf.ledger_id hL
  have hfound : tx₁.data.keyPackage L.vault.id row.deviceID = .ok pkg := by
    rw [hid, hrd]
    exact (keyPackage_ledger hL₁).mpr hp
  -- the row is written back under its own token, which no other device uses
  obtain ⟨data, hput⟩ : ∃ data,
      tx₁.data.putDevice { row with activatedEpoch := L.vault.epoch } = .ok data := by
    refine putDevice_ok wf₁ hL₁ hrv fun e other ho hto hne => ?_
    exact ht.unique d row hr hlive e other ho hto (by rw [← hrd]; exact hne)
  refine ⟨{ tx₁ with data := data }, ?_⟩
  unfold activate
  rw [bind_run hsigned, bind_run (lift_ok.mpr ⟨happroved, rfl⟩),
    bind_run (query_run hfound), bind_run (refuse_run (by simp [hepoch]))]
  exact update_ok.mpr ⟨data, hput, rfl⟩

/-- **No survivor is stranded.** In every run, every approved device of a stored
    vault is activated at the vault's epoch, or a package is stored for it with
    which it can be; and no package is stored for a device that is not approved. -/
theorem no_survivor_stranded {events : List Event} {sys : Sys} (run : Run svc Any events sys) :
    (∀ vaultID vault, sys.data.vaults.lookup vaultID = some vault →
      ∃ list, loadList svc.crypto sys.data vaultID = .ok list ∧
        ∀ row ∈ sys.data.devicesOf vaultID, row.state = .approved →
          row.activatedEpoch = vault.epoch ∨
          ∃ pkg, sys.data.keyPackage vaultID row.deviceID = .ok pkg ∧
            Usable svc.crypto vault.epoch (sys.data.entriesOf vaultID) list pkg ∧
            ∀ caller request tx, Calls caller vault row →
              svc.verifyRequest (deviceScope vaultID row.deviceID) row.signingKey caller request
                ⟨sys.data, sys.ticks, none⟩ = .ok () tx →
              ∃ tx', svc.activate caller request (pkg.toKeyPackageV3.digest svc.crypto)
                ⟨sys.data, sys.ticks, none⟩ = .ok () tx') ∧
    ∀ pkg ∈ sys.data.packages.values, ∃ row ∈ sys.data.devicesOf pkg.vaultID,
      row.deviceID = pkg.recipientDeviceID ∧ row.state = .approved := by
  obtain ⟨wf, hsupplied⟩ := run.supplied
  constructor
  · intro vaultID vault stored
    have hL := ledger_of_lookup stored
    have hid := wf.ledger_id hL
    obtain ⟨list, ha, hs⟩ := hsupplied _ _ hL
    refine ⟨list, (loads_iff ha.verified).mpr rfl, fun row hrow hstate => ?_⟩
    have hr := (mem_devicesOf wf hL).mp hrow
    rcases hs.devices _ row hr hstate with hactive | ⟨pkg, hp⟩
    · exact Or.inl hactive
    · have husable := (hs.packages _ pkg hp).1
      refine Or.inr ⟨pkg, (keyPackage_ledger hL).mpr hp, husable, fun caller request tx hcalls hv => ?_⟩
      rw [← hid] at hv
      exact activate_run (run.tokens.2 _ _ hL) wf hL hr hstate hp husable.epoch hcalls hv
  · intro pkg hpkg
    obtain ⟨k, hk⟩ := Table.mem_values.mp hpkg
    obtain ⟨rfl, hstored⟩ := wf.packages k pkg hk
    obtain ⟨vault, hvault⟩ := Option.isSome_iff_exists.mp hstored
    have hL := ledger_of_lookup hvault
    obtain ⟨list, ha, hs⟩ := hsupplied _ _ hL
    obtain ⟨_, row, hr, hstate⟩ := hs.packages pkg.recipientDeviceID pkg hk
    have hrow := ha.ids _ row hr
    exact ⟨row, (mem_devicesOf wf hL).mpr (by rw [hrow]; exact hr), hrow, hstate⟩

namespace Demo

theorem paired_row : ∃ row ∈ (execAll (service (still 1000)) paired start).2.data.devicesOf vaultID,
      row.deviceID = deviceID 2 ∧ row.state = .approved ∧ row.activatedEpoch = 0 := by
  decide +kernel

theorem paired_epoch :
    ((execAll (service (still 1000)) paired start).2.data.vaults.lookup vaultID).map (·.epoch) =
      some 1 := by
  decide +kernel

theorem no_survivor_stranded_paired :
    ∃ pkg, (execAll (service (still 1000)) paired start).2.data.keyPackage vaultID (deviceID 2) =
      .ok pkg ∧ pkg.vaultEpoch = 1 := by
  obtain ⟨vault, hvault, hepoch⟩ := Option.map_eq_some_iff.mp paired_epoch
  obtain ⟨row, hrow, hid, hstate, hactive⟩ := paired_row
  obtain ⟨_, _, hdevices⟩ := (no_survivor_stranded (execAll_start _ paired)).1 _ vault hvault
  rcases hdevices row hrow hstate with hnow | ⟨pkg, hpkg, husable, _⟩
  · rw [hactive, hepoch] at hnow
    cases hnow
  · rw [hid] at hpkg
    exact ⟨pkg, hpkg, husable.epoch.trans hepoch⟩

end Demo

end Sesame.Syncsvc
