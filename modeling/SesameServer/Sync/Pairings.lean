import SesameServer.Sync.Packages
import SesameServer.Sync.Timeline

/- Pairings, tokens and devices kept apart.

   A pairing is stored under the device it is for, and belongs to a token. What
   keeps the two from clashing is spread over `BeginPairing`, `Approve`, `rekey` and
   expiry; `Ledger.Pairings` is the joint invariant.

   1. `Pairings.begun`, `Pairings.approved`, `Pairings.moved` — one lemma for each
      way the rows change.
   2. `Run.pairings` — so it holds of every stored vault in every run.
   3. `approve_run` — an approval whose checks pass is never stopped by its writes.
   4. `pairings_apart` — the invariant over the methods of the store.
   5. `other_pairings_kept_iff` — when `BeginPairing` leaves the pairings of other
      tokens alone, and when it does not. -/
namespace Sesame.Syncsvc
open Syncproto Outcome State Service History

/-- Few pairings, one for a token, for devices that are not stored yet and tokens
    that no device uses any more. -/
structure Ledger.Pairings (L : Ledger) : Prop where
  few : ∃ ids : Finset Bytes, ids.card ≤ maxPendingPairings ∧
    ∀ d p, L.pairing d = some p → d ∈ ids
  once : ∀ d e p q, L.pairing d = some p → L.pairing e = some q →
    p.tokenDeviceID = q.tokenDeviceID → d = e
  apart : ∀ d p, L.pairing d = some p → L.device d = none
  idle : ∀ d p, L.pairing d = some p → ∀ e row, L.device e = some row →
    row.tokenDeviceID = p.tokenDeviceID → row.state = .revoked

variable {svc : Service} {L L' : Ledger} {caller : Caller} {request : SignedRequest} {tx tx' : Tx}
  {v : Bytes}

namespace Ledger.Pairings

/-- Fewer pairings of the same tokens, beside devices of the same tokens. -/
theorem refresh (h : L.Pairings)
    (hpairing : ∀ d p', L'.pairing d = some p' → ∃ p, L.pairing d = some p ∧
      p'.tokenDeviceID = p.tokenDeviceID)
    (hdevice : ∀ d row', L'.device d = some row' → ∃ row, L.device d = some row ∧
      row'.tokenDeviceID = row.tokenDeviceID ∧ (row.state = .revoked → row'.state = .revoked)) :
    L'.Pairings := by
  obtain ⟨ids, hcard, hids⟩ := h.few
  refine ⟨⟨ids, hcard, fun d p' hp' => ?_⟩, fun d e p' q' hp' hq' ht => ?_, fun d p' hp' => ?_,
    fun d p' hp' e row' hr' ht => ?_⟩
  · obtain ⟨p, hp, _⟩ := hpairing d p' hp'
    exact hids d p hp
  · obtain ⟨p, hp, htp⟩ := hpairing d p' hp'
    obtain ⟨q, hq, htq⟩ := hpairing e q' hq'
    exact h.once d e p q hp hq (by rw [← htp, ← htq, ht])
  · obtain ⟨p, hp, _⟩ := hpairing d p' hp'
    cases hr' : L'.device d with
    | none => rfl
    | some row' =>
      obtain ⟨row, hr, _⟩ := hdevice d row' hr'
      rw [h.apart d p hp] at hr
      cases hr
  · obtain ⟨p, hp, htp⟩ := hpairing d p' hp'
    obtain ⟨row, hr, htr, hrev⟩ := hdevice e row' hr'
    exact hrev (h.idle d p hp e row hr (by rw [← htr, ← htp, ht]))

theorem expire (h : L.Pairings) (now : Time) : (L.expire now).Pairings := by
  refine h.refresh (fun d p hp => ?_) fun d row hr => ⟨row, hr, rfl, id⟩
  exact ⟨p, (Option.filter_eq_some_iff.mp hp).1, rfl⟩

variable {d₀ : Bytes}

theorem rewrite (h : L.Pairings) {p₀ p₁ : Pairing} (hp₀ : L.pairing d₀ = some p₀)
    (hpairing : L'.pairing = Function.update L.pairing d₀ (some p₁))
    (htoken : p₁.tokenDeviceID = p₀.tokenDeviceID) (hdevice : L'.device = L.device) :
    L'.Pairings := by
  refine h.refresh (fun d p' hp' => ?_) fun d row hr => ⟨row, by rw [← hdevice]; exact hr, rfl, id⟩
  rw [hpairing, Function.update_apply] at hp'
  split at hp'
  · next e =>
    rw [e, ← Option.some.inj hp']
    exact ⟨p₀, hp₀, htoken⟩
  · exact ⟨p', hp', rfl⟩

theorem delete (h : L.Pairings) (hpairing : L'.pairing = Function.update L.pairing d₀ none)
    (hdevice : ∀ d row', L'.device d = some row' → ∃ row, L.device d = some row ∧
      row'.tokenDeviceID = row.tokenDeviceID ∧ (row.state = .revoked → row'.state = .revoked)) :
    L'.Pairings := by
  refine h.refresh (fun d p' hp' => ?_) hdevice
  rw [hpairing, Function.update_apply] at hp'
  split at hp'
  · cases hp'
  · exact ⟨p', hp', rfl⟩

/-- A device's row written again, for the same token and in the same state. -/
theorem redevice (h : L.Pairings) {row₀ row₁ : Device} (hr₀ : L.device d₀ = some row₀)
    (hdevice : L'.device = Function.update L.device d₀ (some row₁))
    (htoken : row₁.tokenDeviceID = row₀.tokenDeviceID) (hstate : row₁.state = row₀.state)
    (hpairing : L'.pairing = L.pairing) : L'.Pairings := by
  refine h.refresh (fun d p hp => ⟨p, by rw [← hpairing]; exact hp, rfl⟩) fun d row' hr' => ?_
  rw [hdevice, Function.update_apply] at hr'
  split at hr'
  · next e =>
    rw [e, ← Option.some.inj hr']
    exact ⟨row₀, hr₀, htoken, fun hs => hstate.trans hs⟩
  · exact ⟨row', hr', rfl, id⟩

/-- **An approval** turns a pairing into a device: the other pairings are for other
    devices and of other tokens. -/
theorem approved {entry : DeviceListEntry} {pkg : KeyPackageV3} {pairing : Pairing} {now : Time}
    (h : L.Pairings) (hp₀ : L.pairing entry.subjectDeviceID = some pairing) :
    (L.approve entry pkg pairing now).Pairings := by
  have hother : ∀ d p, (L.approve entry pkg pairing now).pairing d = some p →
      d ≠ entry.subjectDeviceID ∧ L.pairing d = some p := by
    intro d p hp
    simp only [Ledger.approve, Function.update_apply] at hp
    split at hp
    · cases hp
    · next e => exact ⟨e, hp⟩
  obtain ⟨ids, hcard, hids⟩ := h.few
  refine ⟨⟨ids, hcard, fun d p hp => hids d p (hother d p hp).2⟩, fun d e p q hp hq =>
    h.once d e p q (hother d p hp).2 (hother e q hq).2, fun d p hp => ?_,
    fun d p hp e row hr ht => ?_⟩
  · obtain ⟨hne, hp⟩ := hother d p hp
    show Function.update L.device entry.subjectDeviceID _ d = none
    rw [Function.update_of_ne hne]
    exact h.apart d p hp
  · obtain ⟨hne, hp⟩ := hother d p hp
    simp only [Ledger.approve, Function.update_apply] at hr
    split at hr
    · -- the new device's token has no pairing left
      rw [← Option.some.inj hr] at ht
      exact absurd (h.once d _ p pairing hp hp₀ ht.symm) hne
    · exact h.idle d p hp e row hr ht

/-- **A new offer**: its token has no other pairing and no device in use, and its
    device is not stored. -/
theorem begun {offer : PairingOffer} {previous : Option Pairing} (h : L.Pairings)
    (tokens : L.Tokens) (wf : WF tx.data) (b : Begins svc caller request offer L previous tx tx')
    {L' : Ledger} (hL' : tx'.data.ledger L.vault.id = some L') : L'.Pairings := by
  rw [b.ledger, Function.update_self] at hL'
  obtain rfl := Option.some.inj hL'
  -- what is left beside the new row belongs to other tokens
  have hother : ∀ d p, ((L.withdraw previous).expire (svc.clock (tx.ticks + 3))).pairing d = some p →
      L.pairing d = some p ∧ p.tokenDeviceID ≠ caller.tokenDeviceID := by
    intro d p hp
    have hleft := (Option.filter_eq_some_iff.mp hp).1
    simp only [Ledger.withdraw] at hleft
    split at hleft
    · cases hleft
    · next hne =>
      refine ⟨hleft, fun ht => ?_⟩
      cases previous with
      | none => exact b.first rfl d p hleft ht
      | some q =>
        obtain ⟨hq, htq⟩ := b.own q rfl
        have hd := h.once d q.deviceID p q hleft hq (ht.trans htq.symm)
        exact hne (by simp [hd])
  have hidle : ∀ e row, L.device e = some row → row.tokenDeviceID = caller.tokenDeviceID →
      row.state = .revoked := by
    intro e row hr ht
    by_contra hstate
    have hid := (wf.device_row b.stored hr).2
    have hfound := deviceByToken_of wf b.stored (by rw [hid]; exact hr)
      (by rw [hid]; exact (tokens.device e row hr).1) hstate
      (by rw [hid]; exact tokens.unique e row hr hstate)
    rw [ht] at hfound
    exact hstate (b.revoked row hfound)
  have hcases : ∀ d p, Function.update
      ((L.withdraw previous).expire (svc.clock (tx.ticks + 3))).pairing offer.deviceID
      (some (offeredPairing L.vault caller offer (svc.clock (tx.ticks + 4)))) d = some p →
      (d = offer.deviceID ∧ p.tokenDeviceID = caller.tokenDeviceID) ∨
      (L.pairing d = some p ∧ p.tokenDeviceID ≠ caller.tokenDeviceID) := by
    intro d p hp
    rw [Function.update_apply] at hp
    split at hp
    · next e =>
      rw [← Option.some.inj hp]
      exact Or.inl ⟨e, rfl⟩
    · exact Or.inr (hother d p hp)
  obtain ⟨ids, hcard, hids⟩ := b.few
  refine ⟨⟨insert offer.deviceID ids, ?_, fun d p hp => ?_⟩, fun d e p q hp hq ht => ?_,
    fun d p hp => ?_, fun d p hp e row hr ht => ?_⟩
  · exact (Finset.card_insert_le _ _).trans hcard
  · simp only [Function.update_apply] at hp
    split at hp
    · next e => exact Finset.mem_insert.mpr (Or.inl e)
    · exact Finset.mem_insert.mpr (Or.inr (hids d p hp))
  · rcases hcases d p hp with ⟨hd, htp⟩ | ⟨hp, htp⟩
    · rcases hcases e q hq with ⟨he, _⟩ | ⟨_, htq⟩
      · rw [hd, he]
      · exact absurd (ht.symm.trans htp) htq
    · rcases hcases e q hq with ⟨_, htq⟩ | ⟨hq, _⟩
      · exact absurd (ht.trans htq) htp
      · exact h.once d e p q hp hq ht
  · rcases hcases d p hp with ⟨hd, _⟩ | ⟨hp, _⟩
    · rw [hd]
      exact b.unused
    · exact h.apart d p hp
  · rcases hcases d p hp with ⟨_, htp⟩ | ⟨hp, _⟩
    · exact hidle e row hr (ht.trans htp)
    · exact h.idle d p hp e row hr ht

theorem opened {entry : DeviceListEntry} {list : DeviceList} {now : Time} :
    (opening caller entry list now).Pairings :=
  ⟨⟨∅, Nat.zero_le _, fun _ _ hp => (by cases hp)⟩, fun _ _ _ _ hp => (by cases hp),
    fun _ _ hp => (by cases hp), fun _ _ hp => (by cases hp)⟩

/-- Every move but an offer keeps the pairings apart; an offer takes more than a
    `Move` records. -/
theorem moved {call : Call} (move : Move svc L call L') (h : L.Pairings)
    (hoffer : ∀ offer, call.op ≠ .beginPairing offer) : L'.Pairings := by
  cases move with
  | offered => exact absurd rfl (hoffer _)
  | uploaded | checkpointed => exact ⟨h.few, h.once, h.apart, h.idle⟩
  | answered acts activated found => exact h.rewrite found rfl rfl rfl
  | confirmed acts own => exact h.rewrite (acts.pairing _ own).1 rfl rfl rfl
  | cancelled => exact h.delete rfl fun d row hr => ⟨row, hr, rfl, id⟩
  | approved acts appends found => exact h.approved found
  | activated acts approved =>
    exact h.redevice (acts.row (requireApproved_ok approved).1) rfl rfl rfl rfl
  | upgraded acts appends =>
    exact h.redevice (acts.row (requireActivated_ok appends.activated).1) rfl rfl rfl rfl
  | rekeyed =>
    exact ⟨⟨∅, Nat.zero_le _, fun _ _ hp => (by cases hp)⟩, fun _ _ _ _ hp => (by cases hp),
      fun _ _ hp => (by cases hp), fun _ _ hp => (by cases hp)⟩

end Ledger.Pairings

theorem Run.pairings {events : List Event} {sys : Sys} (run : Run svc Any events sys) :
    ∀ v L, sys.data.ledger v = some L → L.Pairings := by
  refine Run.traced (Q := fun _ book => ∀ v L, book v = some L → L.Pairings) .start run.path
    (fun v L hL => by cases hL) (fun _ _ _ _ h => h) ?_
  intro events sys action tx run hrun _ h v L' hL'
  have hchange := run.change hrun v
  by_cases hoffer : ∃ caller request offer, action = .call ⟨caller, request, .beginPairing offer⟩
  · obtain ⟨caller, request, offer, rfl⟩ := hoffer
    obtain ⟨L, previous, b⟩ := beginPairing_ok (by exact run.wf) hrun
    by_cases hv : v = L.vault.id
    · subst hv
      exact (h _ L b.stored).begun (run.tokens.2 _ L b.stored) (by exact run.wf) b hL'
    · -- the other vaults' pairings only expire
      rw [b.ledger, Function.update_of_ne hv] at hL'
      obtain ⟨L₀, h₀, rfl⟩ := Option.map_eq_some_iff.mp hL'
      exact (h v L₀ h₀).expire _
  · rw [hL'] at hchange
    generalize hbefore : sys.data.ledger v = before at hchange
    cases hchange with
    | same => exact h v L' hbefore
    | expired => exact (h v _ hbefore).expire _
    | opened => exact .opened
    | begun move => exact absurd ⟨_, _, _, rfl⟩ hoffer
    | @moved call L _ move =>
      refine (h v L hbefore).moved move fun offer he => hoffer ⟨call.caller, call.request, offer, ?_⟩
      rw [← he]

/-! What follows for the store. -/

variable {s : State}

/-- `PairingByToken` finds a token's only pairing. -/
theorem Ledger.Pairings.pairingByToken (h : L.Pairings) (wf : WF s) (hL : s.ledger v = some L)
    {d : Bytes} {p : Pairing} (hp : L.pairing d = some p) :
    s.pairingByToken v p.tokenDeviceID = .ok p := by
  have hid := (wf.pairing_row hL hp).2
  have hmem := (wf.mem_pairings hL).mpr (show L.pairing p.deviceID = some p by rw [hid]; exact hp)
  cases hfound : s.pairingByToken v p.tokenDeviceID with
  | ok q =>
    obtain ⟨hq, ht⟩ := pairingByToken_ok wf hL hfound
    rw [h.once _ _ q p hq hp ht, hp] at hq
    rw [Option.some.inj hq]
  | error e =>
    unfold State.pairingByToken at hfound
    cases hf : s.pairings.values.find? (fun q =>
        q.vaultID = v ∧ q.tokenDeviceID = p.tokenDeviceID) with
    | some q => rw [hf] at hfound; cases hfound
    | none =>
      have := List.find?_eq_none.mp hf p hmem.1
      simp [hmem.2] at this

theorem pairingByToken_error {token : Bytes} {e : Err} (h : s.pairingByToken v token = .error e) :
    e = .is .notFound := by
  unfold State.pairingByToken at h
  split at h
  · cases h
  · exact (Except.error.inj h).symm

/-- Whatever order the maps are met in, `PairingByToken` gives the same answer. -/
theorem Ledger.Pairings.pairingByToken_reordered {s' : State} (h : L.Pairings) (wf : WF s)
    (hL : s.ledger v = some L) (same : s.Reordered s') (token : Bytes) :
    s'.pairingByToken v token = s.pairingByToken v token := by
  have hL' : s'.ledger v = some L := by rw [same.ledger]; exact hL
  cases hfound : s.pairingByToken v token with
  | ok p =>
    obtain ⟨hp, rfl⟩ := pairingByToken_ok wf hL hfound
    exact h.pairingByToken (same.wf wf) hL' hp
  | error e =>
    obtain rfl := pairingByToken_error hfound
    cases hfound' : s'.pairingByToken v token with
    | ok p =>
      obtain ⟨hp, rfl⟩ := pairingByToken_ok (same.wf wf) hL' hfound'
      rw [h.pairingByToken wf hL hp] at hfound
      cases hfound
    | error e => rw [pairingByToken_error hfound']

/-- **An approval whose checks pass is carried out**: no device in use has the
    pairing's token, so `PutDevice` finds no conflict. -/
theorem approve_run {entry : DeviceListEntry} {pkg : KeyPackageV3} {actor : Actor}
    {pairing : Pairing} {list : DeviceList} (h : L.Pairings) (agrees : Agrees svc.crypto L list)
    (may : MayApprove svc caller request entry pkg L actor pairing tx tx') :
    ∃ tx'', svc.approveWrites entry pkg (actor, pairing) tx' = .ok () tx'' := by
  obtain ⟨vault, device, own⟩ := actor
  obtain rfl := may.acts.vault
  obtain ⟨list', happends⟩ := may.appends
  have hentries : tx'.data.entriesOf entry.vaultID = L.entries := by
    rw [happends.vault]
    exact (congrArg Ledger.entries (ledger_some may.stored).2).symm
  have happend : ∃ s, tx'.data.appendDeviceListEntry entry = .ok s := by
    unfold appendDeviceListEntry
    rw [hentries, ← agrees.head, ← may.fresh, if_neg (by simp)]
    exact ⟨_, rfl⟩
  obtain ⟨s₁, happend⟩ := happend
  have hat₁ := appendDeviceListEntry_at may.wf may.stored happend happends.vault
  have hput : ∃ s, s₁.putDevice (approvedDevice L.vault entry pairing (svc.clock tx'.ticks)) = .ok s :=
    putDevice_ok hat₁.wf hat₁.here rfl
      fun d other ho ht _ => h.idle _ pairing may.found d other ho ht
  obtain ⟨s₂, hput⟩ := hput
  have hat₂ := putDevice_at hat₁.wf hat₁.here hput rfl
  have hat₃ := putKeyPackage_at hat₂.wf hat₂.here { pkg with createdAt := svc.clock tx'.ticks }
    may.package.vault
  have hat₄ := deletePairing_at hat₃.wf hat₃.here entry.subjectDeviceID
  have hupdate : ∃ s, ((s₂.putKeyPackage { pkg with createdAt := svc.clock tx'.ticks }).deletePairing
      L.vault.id entry.subjectDeviceID).updateVault
        { L.vault with headIndex := entry.index, updatedAt := svc.clock tx'.ticks } = .ok s :=
    updateVault_ok (stored_of_ledger hat₄.here)
  obtain ⟨s₃, hupdate⟩ := hupdate
  dsimp only [approveWrites]
  rw [bind_run (now_ok.mpr ⟨rfl, rfl⟩), bind_run (update_run happend), bind_run (update_run hput),
    bind_run write_run, bind_run write_run]
  exact ⟨_, update_run hupdate⟩

/-- **Pairings, tokens and devices are kept apart.** In every run and for every
    stored vault: there are at most `maxPendingPairings` pairings, one for each token;
    none is for a stored device, and none has the token of an approved one; a token
    has at most one device that is not revoked. So `PairingByToken` gives one answer,
    in whatever order it meets the pairings, and an `Approve` whose checks pass
    succeeds. -/
theorem pairings_apart {events : List Event} {sys : Sys} (run : Run svc Any events sys)
    {vaultID : Bytes} {vault : Vault} (stored : sys.data.vaults.lookup vaultID = some vault) :
    (sys.data.pairingsOf vaultID).length ≤ maxPendingPairings ∧
    (∀ p ∈ sys.data.pairingsOf vaultID, ∀ q ∈ sys.data.pairingsOf vaultID,
      p.tokenDeviceID = q.tokenDeviceID → p = q) ∧
    (∀ p ∈ sys.data.pairingsOf vaultID,
      sys.data.device vaultID p.deviceID = .error (.is .notFound)) ∧
    (∀ p ∈ sys.data.pairingsOf vaultID, ∀ row ∈ sys.data.devicesOf vaultID,
      row.state = .approved → row.tokenDeviceID ≠ p.tokenDeviceID) ∧
    (∀ row ∈ sys.data.devicesOf vaultID, ∀ other ∈ sys.data.devicesOf vaultID,
      row.state ≠ .revoked → other.state ≠ .revoked →
      row.tokenDeviceID = other.tokenDeviceID → row = other) ∧
    (∀ p ∈ sys.data.pairingsOf vaultID, ∀ data, sys.data.Reordered data →
      data.pairingByToken vaultID p.tokenDeviceID = .ok p) ∧
    ∀ caller request entry pkg checked tx,
      svc.approveChecks caller request entry pkg ⟨sys.data, sys.ticks, none⟩ = .ok checked tx →
      ∃ tx', svc.approve caller request entry pkg ⟨sys.data, sys.ticks, none⟩ = .ok () tx' := by
  have wf := run.wf
  have hL := ledger_of_lookup stored
  have h := run.pairings _ _ hL
  have tokens := run.tokens.2 _ _ hL
  have hrow : ∀ {p}, p ∈ sys.data.pairingsOf vaultID →
      (sys.data.ledgerOf vaultID vault).pairing p.deviceID = some p := (mem_pairingsOf wf hL).mp
  have hdevice : ∀ {row}, row ∈ sys.data.devicesOf vaultID →
      (sys.data.ledgerOf vaultID vault).device row.deviceID = some row := (mem_devicesOf wf hL).mp
  refine ⟨?_, fun p hp q hq ht => ?_, fun p hp => ?_, fun p hp row hr hstate ht => ?_,
    fun row hr other ho hstate hstate' ht => ?_, fun p hp data same => ?_,
    fun caller request entry pkg checked tx hchecks => ?_⟩
  · obtain ⟨ids, hcard, hids⟩ := h.few
    rw [← List.length_map (f := fun p : Pairing => p.deviceID),
      ← List.toFinset_card_of_nodup (wf.nodup_pairingsOf vaultID)]
    refine (Finset.card_le_card fun d hd => ?_).trans hcard
    obtain ⟨p, hp, rfl⟩ := List.mem_map.mp (List.mem_toFinset.mp hd)
    exact hids _ p (hrow hp)
  · have hid := h.once _ _ p q (hrow hp) (hrow hq) ht
    have hsame := hrow hp
    rw [hid, hrow hq] at hsame
    exact (Option.some.inj hsame).symm
  · have hnone : sys.data.devices.lookup (key [vaultID, p.deviceID]) = none :=
      h.apart _ p (hrow hp)
    simp [State.device, hnone]
  · have hrevoked := h.idle _ p (hrow hp) _ row (hdevice hr) ht
    rw [hstate] at hrevoked
    cases hrevoked
  · by_contra hne
    have hid : other.deviceID ≠ row.deviceID := by
      intro he
      have hsame := hdevice ho
      rw [he, hdevice hr] at hsame
      exact hne (Option.some.inj hsame)
    exact hstate' (tokens.unique _ row (hdevice hr) hstate _ other (hdevice ho) ht.symm hid)
  · rw [h.pairingByToken_reordered wf hL same, h.pairingByToken wf hL (hrow hp)]
  · obtain ⟨actor, pairing⟩ := checked
    obtain ⟨L, may⟩ := approveChecks_ok (by exact wf) hchecks
    have hstored : sys.data.ledger L.vault.id = some L := by
      rw [← may.stored, may.ledger]
    obtain ⟨list, agrees⟩ := run.agrees.2 _ L hstored
    obtain ⟨tx'', hwrites⟩ := approve_run (run.pairings _ L hstored) agrees may
    exact ⟨tx'', by rw [approve_split, bind_run hchecks, hwrites]⟩

/-! Offers of different tokens. -/

/-- `BeginPairing` up to its first write: the vault, and the token's earlier pairing. -/
def Service.beginChecks (svc : Service) (caller : Caller) (request : SignedRequest)
    (offer : PairingOffer) : TxM (Vault × Option Pairing) := do
  refuse caller.incomplete (.is .forbidden)
  let vault ← vaultOf caller.ownerKey
  refuse (badMessage offer.message) (.is .invalid)
  lift (orInvalid (pairingProbe vault offer).validate)
  svc.verifyRequest (ownerScope caller.ownerKey) offer.signingKey caller request
  let existing ← find (·.deviceByToken vault.id caller.tokenDeviceID)
  refuse (∃ device ∈ existing, device.state ≠ .revoked) (.is .forbidden)
  let used ← find (·.device vault.id offer.deviceID)
  refuse (used ≠ none) (.is .conflict)
  let previous ← find (·.pairingByToken vault.id caller.tokenDeviceID)
  pure (vault, previous)

/-- `BeginPairing` from its first write on, the quota with it. -/
def Service.beginWrites (svc : Service) (caller : Caller) (offer : PairingOffer)
    (checked : Vault × Option Pairing) : TxM Unit := do
  let (vault, previous) := checked
  forSome previous fun previous => write (·.deletePairing vault.id previous.deviceID)
  let purged ← svc.now
  write (·.purgeExpired purged)
  let pairings ← query (fun s => .ok (s.pairingsOf vault.id))
  refuse (maxPendingPairings ≤ pairings.length) (.is .quota)
  let now ← svc.now
  write (·.putPairing (offeredPairing vault caller offer now))

theorem beginPairing_split (offer : PairingOffer) : svc.beginPairing caller request offer =
    svc.beginChecks caller request offer >>= svc.beginWrites caller offer := by
  simp only [beginPairing, beginChecks, beginWrites, offeredPairing, bind_assoc, pure_bind]

/-- The pairings the quota counts: the vault's, without the token's earlier one and
    those expired at `now`. -/
def State.pairingsBeside (s : State) (vaultID : Bytes) (previous : Option Pairing) (now : Time) :
    List Pairing :=
  ((previous.elim s fun p => s.deletePairing vaultID p.deviceID).purgeExpired now).pairingsOf vaultID

/-- The checks find the caller's vault, change no pairing and read the clock three
    times. -/
theorem beginChecks_ok {offer : PairingOffer} {vault : Vault} {previous : Option Pairing}
    (h : svc.beginChecks caller request offer tx = .ok (vault, previous) tx') :
    tx.data.vaultByOwner caller.ownerKey = .ok vault ∧ tx'.ticks = tx.ticks + 3 ∧
      tx'.data.pairings = tx.data.pairings := by
  simp only [beginChecks, bind_ok, refuse_ok, lift_ok, pure_ok] at h
  obtain ⟨_, _, ⟨_, rfl⟩, _, _, hvault, _, _, ⟨_, rfl⟩, _, _, ⟨_, rfl⟩, _, tx₁, hverify, _, _,
    hexisting, _, _, ⟨_, rfl⟩, _, _, hused, _, _, ⟨_, rfl⟩, _, _, hprevious, hsame, rfl⟩ := h
  obtain ⟨rfl, rfl⟩ := Prod.mk.inj hsame
  obtain ⟨rfl, hfound⟩ := vaultOf_ok hvault
  obtain ⟨rfl, _⟩ := find_ok hexisting
  obtain ⟨rfl, _⟩ := find_ok hused
  obtain ⟨rfl, _⟩ := find_ok hprevious
  have hverified := verifyRequest_ok hverify
  exact ⟨hfound, hverified.ticks, by rw [hverified.data]⟩

/-- After the checks only the quota can refuse. -/
theorem beginWrites_run {offer : PairingOffer} {vault : Vault} {previous : Option Pairing} :
    (∃ tx', svc.beginWrites caller offer (vault, previous) tx = .ok () tx') ↔
      (tx.data.pairingsBeside vault.id previous (svc.clock tx.ticks)).length <
        maxPendingPairings := by
  have hdelete : forSome previous (fun p => write (·.deletePairing vault.id p.deviceID)) tx =
      .ok () { tx with
        data := previous.elim tx.data fun p => tx.data.deletePairing vault.id p.deviceID } := by
    cases previous <;> rfl
  dsimp only [beginWrites, State.pairingsBeside]
  rw [bind_run hdelete, bind_run (now_ok.mpr ⟨rfl, rfl⟩), bind_run write_run]
  simp only [bind_ok, query_ok, refuse_ok, now_ok, write_ok, not_le, Except.ok.injEq]
  constructor
  · rintro ⟨_, _, _, ⟨rfl, rfl⟩, _, _, ⟨hquota, _⟩, _⟩
    exact hquota
  · intro hquota
    exact ⟨_, _, _, ⟨rfl, rfl⟩, (), _, ⟨hquota, rfl⟩, _, _, ⟨rfl, rfl⟩, rfl⟩

/-- **When `BeginPairing` succeeds**: its checks pass on the store before the call, and
    there is room under the quota. -/
theorem beginPairing_run {offer : PairingOffer} :
    (∃ tx', svc.beginPairing caller request offer tx = .ok () tx') ↔
      ∃ vault previous checked,
        svc.beginChecks caller request offer tx = .ok (vault, previous) checked ∧
        (tx.data.pairingsBeside vault.id previous (svc.clock (tx.ticks + 3))).length <
          maxPendingPairings := by
  have hbeside {vault previous checked}
      (h : svc.beginChecks caller request offer tx = .ok (vault, previous) checked) :
      checked.data.pairingsBeside vault.id previous (svc.clock checked.ticks) =
        tx.data.pairingsBeside vault.id previous (svc.clock (tx.ticks + 3)) := by
    obtain ⟨_, hticks, hpairings⟩ := beginChecks_ok h
    cases previous <;> simp only [State.pairingsBeside, Option.elim, State.pairingsOf,
      State.purgeExpired, State.deletePairing, hticks, hpairings]
  rw [beginPairing_split]
  constructor
  · rintro ⟨tx', h⟩
    obtain ⟨⟨vault, previous⟩, checked, hchecks, hwrites⟩ := bind_ok.mp h
    have hquota := beginWrites_run.mp ⟨tx', hwrites⟩
    rw [hbeside hchecks] at hquota
    exact ⟨vault, previous, checked, hchecks, hquota⟩
  · rintro ⟨vault, previous, checked, hchecks, hquota⟩
    rw [bind_run hchecks, beginWrites_run, hbeside hchecks]
    exact hquota

/-- The pairing is another token's, and alive when `BeginPairing` purges the expired
    ones: that is the clock's fourth reading, after three for the request. -/
def OthersPairing (svc : Service) (caller : Caller) (ticks : Nat) (pairing : Pairing) : Prop :=
  pairing.tokenDeviceID ≠ caller.tokenDeviceID ∧ svc.clock (ticks + 3) < pairing.expiresAt

instance (svc : Service) (caller : Caller) (ticks : Nat) (pairing : Pairing) :
    Decidable (OthersPairing svc caller ticks pairing) := inferInstanceAs (Decidable (_ ∧ _))

/-- An accepted `BeginPairing` keeps exactly the other tokens' pairings that are not
    for the device it offers. -/
theorem Begins.kept_iff {sys : Sys} {offer : PairingOffer} {previous : Option Pairing}
    (b : Begins svc caller request offer L previous ⟨sys.data, sys.ticks, none⟩ tx') {p : Pairing}
    (hp : L.pairing p.deviceID = some p) (other : OthersPairing svc caller sys.ticks p) :
    tx'.data.pairing L.vault.id p.deviceID = .ok p ↔ p.deviceID ≠ offer.deviceID := by
  have hafter := congrFun b.ledger L.vault.id
  rw [Function.update_self] at hafter
  rw [pairing_ledger hafter]
  dsimp only
  rw [Function.update_apply]
  constructor
  · intro hkept he
    rw [if_pos he] at hkept
    exact other.1 (by rw [← Option.some.inj hkept]; rfl)
  · intro hne
    rw [if_neg hne]
    refine Option.filter_eq_some_iff.mpr ⟨?_, by simpa using other.2⟩
    simp only [Ledger.withdraw]
    rw [if_neg, hp]
    -- the pairing withdrawn is the token's own
    intro he
    obtain ⟨q, hq, hid⟩ := Option.map_eq_some_iff.mp he
    obtain ⟨hqrow, hqtoken⟩ := b.own q hq
    rw [hid, hp] at hqrow
    exact other.1 (by rw [Option.some.inj hqrow, hqtoken])

/-- **When `BeginPairing` leaves other tokens' pairings alone.** It keeps every
    unexpired pairing of another token exactly when none of them is for the device it
    offers, or its checks fail on the store before the call, or the quota is used up;
    otherwise it overwrites that one. -/
theorem other_pairings_kept_iff {sys : Sys} (wf : WF sys.data) {offer : PairingOffer} {vault : Vault}
    (found : sys.data.vaultByOwner caller.ownerKey = .ok vault) :
    (∀ pairing ∈ sys.data.pairingsOf vault.id, OthersPairing svc caller sys.ticks pairing →
      (exec svc (.call ⟨caller, request, .beginPairing offer⟩) sys).2.data.pairing vault.id
        pairing.deviceID = .ok pairing) ↔
    ∀ previous checked, svc.beginChecks caller request offer ⟨sys.data, sys.ticks, none⟩ =
        .ok (vault, previous) checked →
      (sys.data.pairingsBeside vault.id previous (svc.clock (sys.ticks + 3))).length <
        maxPendingPairings →
      ∀ pairing ∈ sys.data.pairingsOf vault.id, OthersPairing svc caller sys.ticks pairing →
        pairing.deviceID ≠ offer.deviceID := by
  obtain ⟨howner, L, hL, rfl⟩ := vaultByOwner_ok wf found
  rcases exec_cases svc (.call ⟨caller, request, .beginPairing offer⟩) sys with
    ⟨tx, hrun, hexec⟩ | ⟨e, tx, hrun, hexec⟩ <;> rw [hexec] <;> dsimp only [Service.run] at hrun
  · obtain ⟨M, earlier, b⟩ := beginPairing_ok (by exact wf) hrun
    -- the owner has one vault
    have hM : M = L := by
      have hvault := vaultByOwner_of wf b.stored
      rw [b.owner, found] at hvault
      have hstored := b.stored
      rw [← Except.ok.inj hvault] at hstored
      exact Option.some.inj (hstored.symm.trans hL)
    subst hM
    have hiff {p} (hp : p ∈ sys.data.pairingsOf M.vault.id)
        (other : OthersPairing svc caller sys.ticks p) :=
      b.kept_iff ((mem_pairingsOf wf hL).mp hp) other
    constructor
    · intro kept _ _ _ _ p hp other
      exact (hiff hp other).mp (kept p hp other)
    · intro free p hp other
      obtain ⟨vault, previous, checked, hchecks, hquota⟩ := beginPairing_run.mp ⟨tx, hrun⟩
      obtain rfl : vault = M.vault :=
        Except.ok.inj ((beginChecks_ok hchecks).1.symm.trans found)
      exact (hiff hp other).mpr (free previous checked hchecks hquota p hp other)
  · constructor
    · intro _ previous checked hchecks hquota
      obtain ⟨tx', hok⟩ := beginPairing_run.mpr ⟨_, previous, checked, hchecks, hquota⟩
      rw [hrun] at hok
      cases hok
    · intro _ p hp _
      exact (pairing_ledger hL).mpr ((mem_pairingsOf wf hL).mp hp)

namespace Demo

/-- The offer by which the token of device `n` asks to join as device 2. -/
def offerAs (n : UInt8) : PairingOffer := ⟨deviceID 2, signingKey n, packageKey n, utf8 "offer"⟩

/-- Device 1 creates the vault, and the token of device 2 offers device 2. -/
def offered : List Action := created ++ [.call (call 2 1000 2 (.beginPairing (offerAs 2)))]

/-- The request of the token of device 3 that offers a device id of its own. -/
def newcomer : Call :=
  call 3 1000 3 (.beginPairing ⟨deviceID 3, signingKey 3, packageKey 3, utf8 "offer"⟩)

/-- The token of device 3 offers a device of its own beside the pairing of device 2. -/
def offeredTwice : List Action := offered ++ [.call newcomer]

theorem pairings_apart_offered :
    (∃ p q, (execAll (service (still 1000)) offeredTwice start).2.data.pairingsOf vaultID = [p, q] ∧
      p.tokenDeviceID ≠ q.tokenDeviceID) ∧
    ∀ p ∈ (execAll (service (still 1000)) offeredTwice start).2.data.pairingsOf vaultID,
      (execAll (service (still 1000)) offeredTwice start).2.data.pairingByToken vaultID
        p.tokenDeviceID = .ok p := by
  have hstored : ((execAll (service (still 1000)) offeredTwice start).2.data.vaults.lookup
      vaultID).isSome = true := by decide +kernel
  have htokens : ((execAll (service (still 1000)) offeredTwice start).2.data.pairingsOf
      vaultID).map (·.tokenDeviceID) =
      [(Demo.caller 3).tokenDeviceID, (Demo.caller 2).tokenDeviceID] := by decide +kernel
  obtain ⟨vault, hvault⟩ := Option.isSome_iff_exists.mp hstored
  obtain ⟨_, _, _, _, _, hunique, _⟩ := pairings_apart (execAll_start _ offeredTwice) hvault
  refine ⟨?_, fun p hp => hunique p hp _ (.refl _)⟩
  obtain ⟨p, _, hlist, hp, hrest⟩ := List.map_eq_cons_iff.mp htokens
  obtain ⟨q, _, rfl, hq, hnil⟩ := List.map_eq_cons_iff.mp hrest
  rw [List.map_eq_nil_iff.mp hnil] at hlist
  exact ⟨p, q, hlist, by rw [hp, hq]; decide⟩

/-- The store after the first offer. -/
def offeredOnce : Sys := (execAll (service (still 1000)) offered start).2

/-- The request of the token of device 3 that also offers device 2. -/
def rival : Action := .call (call 3 1000 3 (.beginPairing (offerAs 3)))

/-- **A second token takes over a pairing.** The pairing of the token of device 2 is
    alive when the token of device 3 offers the same device id, and then it is gone. -/
theorem pairing_taken_over :
    Run (service (still 1000)) Any (execAll (service (still 1000)) offered start).1 offeredOnce ∧
    (exec (service (still 1000)) rival offeredOnce).1.accepted = true ∧
    ∃ p ∈ offeredOnce.data.pairingsOf vaultID,
      OthersPairing (service (still 1000)) (Demo.caller 3) offeredOnce.ticks p ∧
      (exec (service (still 1000)) rival offeredOnce).2.data.pairing vaultID p.deviceID ≠ .ok p := by
  refine ⟨execAll_start _ offered, by decide +kernel, ?_⟩
  decide +kernel

theorem other_pairings_kept_newcomer :
    (exec (service (still 1000)) (.call newcomer) offeredOnce).1.accepted = true ∧
    ∀ p ∈ offeredOnce.data.pairingsOf vaultID,
      OthersPairing (service (still 1000)) (Demo.caller 3) offeredOnce.ticks p →
      (exec (service (still 1000)) (.call newcomer) offeredOnce).2.data.pairing vaultID
        p.deviceID = .ok p := by
  have hfound : offeredOnce.data.vaultByOwner (Demo.caller 3).ownerKey = .ok createdVault := by
    decide +kernel
  have hids : ∀ p ∈ offeredOnce.data.pairingsOf vaultID,
      OthersPairing (service (still 1000)) (Demo.caller 3) offeredOnce.ticks p →
      p.deviceID ≠ deviceID 3 := by decide +kernel
  refine ⟨by decide +kernel, ?_⟩
  exact (other_pairings_kept_iff (execAll_start _ offered).wf hfound).mpr fun _ _ _ _ => hids

end Demo

end Sesame.Syncsvc
