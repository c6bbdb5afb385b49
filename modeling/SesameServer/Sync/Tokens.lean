import SesameServer.Sync.Agreement

/- Who an access token acts for.

   A device is found by its token, and a token may have belonged to several
   devices of a vault one after the other. `Ledger.Tokens` says that at most one of
   them is not revoked, so that the device the token acts for is never in doubt:

   1. `Tokens.moved` — every move keeps it.
   2. `Tokens.actorFor` — an approved device that calls with its own token is the
      actor of the call. -/
namespace Sesame.Syncsvc
open Syncproto Outcome State Service DeviceList

/-- Every device has an id and a token, and shares the token with no device that is
    not revoked. -/
structure Ledger.Tokens (L : Ledger) : Prop where
  owner : L.vault.ownerKey ≠ []
  device : ∀ d row, L.device d = some row → d ≠ [] ∧ row.tokenDeviceID ≠ []
  pairing : ∀ d pairing, L.pairing d = some pairing → pairing.tokenDeviceID ≠ []
  unique : ∀ d row, L.device d = some row → row.state ≠ .revoked →
    ∀ e other, L.device e = some other → other.tokenDeviceID = row.tokenDeviceID → e ≠ d →
      other.state = .revoked

variable {svc : Service} {L L' : Ledger} {caller : Caller}

theorem token_ne_nil (h : ¬caller.incomplete) : caller.tokenDeviceID ≠ [] :=
  fun he => h (Or.inr (Or.inl he))

theorem pairing_update {pairing : Bytes → Option Pairing} {d₀ : Bytes} {p₀ : Pairing}
    (h₀ : p₀.tokenDeviceID ≠ []) (h : ∀ d p, pairing d = some p → p.tokenDeviceID ≠ []) :
    ∀ d p, Function.update pairing d₀ (some p₀) d = some p → p.tokenDeviceID ≠ [] := by
  intro d p hp
  rw [Function.update_apply] at hp
  split at hp
  · rwa [← Option.some.inj hp]
  · exact h d p hp

theorem pairing_delete {pairing : Bytes → Option Pairing} {d₀ : Bytes}
    (h : ∀ d p, pairing d = some p → p.tokenDeviceID ≠ []) :
    ∀ d p, Function.update pairing d₀ none d = some p → p.tokenDeviceID ≠ [] := by
  intro d p hp
  rw [Function.update_apply] at hp
  split at hp
  · cases hp
  · exact h d p hp

namespace Ledger.Tokens

/-- Rows that keep their token, and are not brought back once revoked, keep the
    tokens apart. -/
theorem refresh (h : L.Tokens) (howner : L'.vault.ownerKey = L.vault.ownerKey)
    (hpairing : ∀ d p, L'.pairing d = some p → p.tokenDeviceID ≠ [])
    (hdevice : ∀ d row', L'.device d = some row' → ∃ row, L.device d = some row ∧
      row'.tokenDeviceID = row.tokenDeviceID ∧ (row.state = .revoked → row'.state = .revoked)) :
    L'.Tokens := by
  refine ⟨by rw [howner]; exact h.owner, fun d row' hr' => ?_, hpairing,
    fun d row' hr' hstate e other' ho' ht hne => ?_⟩
  · obtain ⟨row, hr, htoken, _⟩ := hdevice d row' hr'
    rw [htoken]
    exact h.device d row hr
  · obtain ⟨row, hr, htoken, hrev⟩ := hdevice d row' hr'
    obtain ⟨other, ho, htoken', hrev'⟩ := hdevice e other' ho'
    exact hrev' (h.unique d row hr (fun hs => hstate (hrev hs)) e other ho
      (by rw [← htoken', ← htoken, ht]) hne)

theorem rewrite (h : L.Tokens) {row row' : Device} (hr : L.device row.deviceID = some row)
    (hdevice : L'.device = Function.update L.device row.deviceID (some row'))
    (htoken : row'.tokenDeviceID = row.tokenDeviceID) (hstate : row'.state = row.state)
    (howner : L'.vault.ownerKey = L.vault.ownerKey) (hpairing : L'.pairing = L.pairing) :
    L'.Tokens := by
  refine h.refresh howner (by rw [hpairing]; exact h.pairing) fun d x hx => ?_
  rw [hdevice, Function.update_apply] at hx
  split at hx
  · next e =>
    obtain rfl := Option.some.inj hx
    exact ⟨row, by rw [e]; exact hr, htoken, fun hs => hstate.trans hs⟩
  · exact ⟨x, hx, rfl, id⟩

theorem enrol (h : L.Tokens) {d₀ : Bytes} {row : Device}
    (hdevice : L'.device = Function.update L.device d₀ (some row)) (hid : d₀ ≠ [])
    (htoken : row.tokenDeviceID ≠ [])
    (hfree : ∀ d other, L.device d = some other → other.tokenDeviceID = row.tokenDeviceID →
      d ≠ d₀ → other.state = .revoked) (howner : L'.vault.ownerKey = L.vault.ownerKey)
    (hpairing : ∀ d p, L'.pairing d = some p → p.tokenDeviceID ≠ []) : L'.Tokens := by
  have hcases : ∀ d x, L'.device d = some x →
      (d = d₀ ∧ x = row) ∨ (d ≠ d₀ ∧ L.device d = some x) := by
    intro d x hx
    rw [hdevice, Function.update_apply] at hx
    split at hx
    · next e => exact Or.inl ⟨e, (Option.some.inj hx).symm⟩
    · next e => exact Or.inr ⟨e, hx⟩
  refine ⟨by rw [howner]; exact h.owner, fun d x hx => ?_, hpairing,
    fun d x hx hstate e other ho ht hne => ?_⟩
  · rcases hcases d x hx with ⟨rfl, rfl⟩ | ⟨_, hx⟩
    · exact ⟨hid, htoken⟩
    · exact h.device d x hx
  · rcases hcases d x hx with ⟨rfl, rfl⟩ | ⟨hd, hx⟩
    · rcases hcases e other ho with ⟨rfl, _⟩ | ⟨_, ho⟩
      · exact absurd rfl hne
      · exact hfree e other ho ht hne
    · rcases hcases e other ho with ⟨rfl, rfl⟩ | ⟨_, ho⟩
      · exact absurd (hfree d x hx ht.symm hd) hstate
      · exact h.unique d x hx hstate e other ho ht hne

theorem opened {entry : DeviceListEntry} {list : DeviceList} {now : Time}
    (complete : ¬caller.incomplete) (h : verifyDeviceList svc.crypto [entry] = .ok list) :
    (opening caller entry list now).Tokens := by
  have hsnoc : verifyDeviceList svc.crypto ([] ++ [entry]) = .ok list := h
  obtain ⟨_, _, hext⟩ := verifyDeviceList_snoc.mp hsnoc
  obtain ⟨_, _, hsubject, _⟩ := DeviceListEntry.validate_ok (extend_grows hext).1
  have hblank : (Ledger.blank (opening caller entry list now).vault).Tokens :=
    ⟨fun he => complete (Or.inl he), fun _ _ hr => (by cases hr), fun _ _ hp => (by cases hp),
      fun _ _ hr => (by cases hr)⟩
  exact hblank.enrol rfl (opaqueID_ne_nil hsubject) (token_ne_nil complete)
    (fun _ _ ho => by cases ho) rfl hblank.pairing

theorem expire (h : L.Tokens) (now : Time) : (L.expire now).Tokens := by
  refine ⟨h.owner, h.device, fun d p hp => ?_, h.unique⟩
  exact h.pairing d p (Option.filter_eq_some_iff.mp hp).1

theorem moved {call : Call} (move : Move svc L call L') (h : L.Tokens) : L'.Tokens := by
  cases move with
  | uploaded | checkpointed => exact ⟨h.owner, h.device, h.pairing, h.unique⟩
  | offered complete =>
    refine ⟨h.owner, h.device, pairing_update (token_ne_nil complete) fun d p hp => ?_, h.unique⟩
    split at hp
    · cases hp
    · exact h.pairing d p hp
  | answered acts activated found =>
    have htoken := h.pairing _ _ found
    exact ⟨h.owner, h.device, pairing_update htoken h.pairing, h.unique⟩
  | confirmed acts own =>
    have htoken := h.pairing _ _ (acts.pairing _ own).1
    exact ⟨h.owner, h.device, pairing_update htoken h.pairing, h.unique⟩
  | cancelled => exact ⟨h.owner, h.device, pairing_delete h.pairing, h.unique⟩
  | approved acts appends found state live keys package token =>
    obtain ⟨_, _, hext⟩ := appends.grown
    obtain ⟨_, _, hsubject, _⟩ := DeviceListEntry.validate_ok (extend_grows hext).1
    have htoken := h.pairing _ _ found
    exact h.enrol rfl (opaqueID_ne_nil hsubject) htoken token rfl (pairing_delete h.pairing)
  | activated acts approved =>
    exact h.rewrite (acts.row (requireApproved_ok approved).1) rfl rfl rfl rfl rfl
  | upgraded acts appends =>
    exact h.rewrite (acts.row (requireActivated_ok appends.activated).1) rfl rfl rfl rfl rfl
  | @rekeyed _ _ kind _ entry _ actor =>
    refine h.refresh rfl (fun d p hp => by cases hp) fun d row' hr' => ?_
    obtain ⟨row, hr, rfl⟩ := Option.map_eq_some_iff.mp hr'
    obtain ⟨_, htoken, _, _, _, hstate⟩ := rekeyed_fields actor kind entry row
    refine ⟨row, hr, htoken, fun hs => ?_⟩
    rw [hstate, hs]
    split <;> rfl

end Ledger.Tokens

/-- In every run, every stored vault's list agrees and its tokens are told apart. -/
theorem Run.tokens {P : Sys → Action → Prop} {events : List Event} {sys : Sys}
    (run : Run svc P events sys) : WF sys.data ∧ ∀ v L, sys.data.ledger v = some L → L.Tokens :=
  run.holds fun _ _ _ _ _ _ h hstep => hstep.forall
    (fun _ _ _ _ complete hl => .opened complete hl) (fun _ now hL => hL.expire now)
    (fun _ _ _ _ hmove hL => hL.moved hmove) h

/-- The caller has the owner's key and the device's own token. -/
structure Calls (caller : Caller) (vault : Vault) (row : Device) : Prop where
  owner : caller.ownerKey = vault.ownerKey
  device : caller.tokenDeviceID = row.tokenDeviceID
  token : caller.token ≠ []

/-- **A device's token acts for the device.** -/
theorem Ledger.Tokens.actorFor {tx : Tx} {v d : Bytes} (h : L.Tokens) (wf : WF tx.data)
    (hL : tx.data.ledger v = some L) {row : Device} (hr : L.device d = some row)
    (hstate : row.state ≠ .revoked) (calls : Calls caller L.vault row) :
    svc.actorFor caller tx = .ok ⟨L.vault, row, none⟩ tx := by
  have hid := (wf.device_row hL hr).2
  obtain ⟨hd, htoken⟩ := h.device d row hr
  have hcomplete : ¬caller.incomplete := by
    rintro (howner | hdevice | hsecret)
    · exact h.owner (calls.owner.symm.trans howner)
    · exact htoken (calls.device.symm.trans hdevice)
    · exact calls.token hsecret
  refine actorFor_device wf hL (by rw [hid]; exact hr) (by rw [hid]; exact hd) hstate ?_ hcomplete
    calls.owner calls.device
  rw [hid]
  exact h.unique d row hr hstate

end Sesame.Syncsvc
