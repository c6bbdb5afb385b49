import SesameServer.Sync.Ceremony
import SesameServer.Sync.Requests
import SesameServer.Sync.Views

/- What a removed device can still do.

   A removed device keeps its row, now revoked, and its token, which may come back
   with a new device. `Cut` is what holds of the vault ever after: the row and the
   member never change, and every pairing and every device in use of that token has
   its calls among the events since.

   1. `run_acts` — every signed call but the first two has an actor that is approved
      or is a pairing.
   2. `Move.removed` — a move never touches a removed device.
   3. `Run.cut` — so `Cut` holds in every continuation that keeps the vault.
   4. `removed_device_shut_out` — and the device is shut out. -/
namespace Sesame.Syncsvc
open Syncproto Outcome State Service DeviceList History

variable {svc : Service} {L L' : Ledger} {v d : Bytes} {row : Device} {k : Nat} {owner : Bytes}
  {caller : Caller} {request : SignedRequest} {tx tx' : Tx}

/-! Who a signed call acts as. -/

/-- The device that the payload of an operation is from, if it names one. -/
def Op.signer : Op → Option Bytes
  | .createVault entry | .approve entry _ | .remove entry _ | .rotate entry _
  | .upgradeKey entry => some entry.signerDeviceID
  | .beginPairing offer => some offer.deviceID
  | .upload header _ => some header.deviceID
  | .putCheckpoint checkpoint => some checkpoint.deviceID
  | _ => none

/-- The call is made under the device's id: its payload is from the device, or the
    device is its actor. -/
def ActsUnder (svc : Service) (sys : Sys) (call : Call) (d : Bytes) : Prop :=
  call.op.signer = some d ∨ (call.op.byOwner = false ∧ ∃ actor tx,
    svc.actorFor call.caller ⟨sys.data, sys.ticks, none⟩ = .ok actor tx ∧
      actor.device.deviceID = d)

/-- The actor may change something: it is a pairing or an approved device. -/
def Actor.able (actor : Actor) : Prop := actor.pairing ≠ none ∨ requireApproved actor = .ok ()

theorem able_of_activated {actor : Actor} {u : Unit} (h : requireActivated actor = .ok u) :
    actor.able := by
  simp only [requireActivated, except_bind_ok] at h
  obtain ⟨_, happroved, _⟩ := h
  exact Or.inr happroved

/-- A call that asks for the signed actor first and checks it next has an able actor. -/
theorem signed_able {α : Type} {guard : Actor → Except Err Unit} {rest : Actor → TxM α} {a : α}
    (hguard : ∀ actor, guard actor = .ok () → actor.able) (h : (do
      let actor ← svc.signedActor caller request
      Outcome.lift (guard actor)
      rest actor : TxM α) tx = .ok a tx') :
    ∃ actor tx₁, svc.actorFor caller tx = .ok actor tx₁ ∧ actor.able := by
  obtain ⟨actor, _, hsigned, h⟩ := bind_ok.mp h
  obtain ⟨_, _, hlift, _⟩ := bind_ok.mp h
  obtain ⟨tx₁, hactor, _⟩ := signedActor_verified hsigned
  exact ⟨actor, tx₁, hactor, hguard actor (lift_ok.mp hlift).1⟩

/-- **Who changes a vault.** A signed call that succeeds creates a vault, begins a
    pairing, or has an actor that is approved or is a pairing. -/
theorem run_acts {op : Op} (h : svc.run (.call ⟨caller, request, op⟩) tx = .ok () tx')
    (hdevice : op.byOwner = false) :
    ∃ actor tx₁, svc.actorFor caller tx = .ok actor tx₁ ∧ actor.able := by
  cases op with
  | createVault | beginPairing => cases hdevice
  | answerPairing | approve | remove | rotate | upgradeKey =>
    exact signed_able (fun _ => able_of_activated) h
  | confirmPairing =>
    obtain ⟨actor, _, hsigned, h⟩ := bind_ok.mp h
    obtain ⟨tx₁, hactor, _⟩ := signedActor_verified hsigned
    refine ⟨actor, tx₁, hactor, Or.inl fun hn => ?_⟩
    rw [hn] at h
    exact (throw_ok.mp h).elim
  | cancelPairing =>
    obtain ⟨actor, _, hsigned, h⟩ := bind_ok.mp h
    obtain ⟨tx₁, hactor, _⟩ := signedActor_verified hsigned
    refine ⟨actor, tx₁, hactor, ?_⟩
    cases hp : actor.pairing with
    | some pairing => exact Or.inl (by simp [hp])
    | none =>
      rw [hp] at h
      obtain ⟨_, _, hlift, _⟩ := bind_ok.mp h
      exact Or.inr (lift_ok.mp hlift).1
  | activate | reset => exact signed_able (fun _ => Or.inr) h
  | upload | putCheckpoint =>
    obtain ⟨_, _, h, _⟩ := bind_ok.mp h
    exact signed_able (fun _ => able_of_activated) h

/-- An owner who has a vault creates no other. -/
theorem createVault_fresh {entry : DeviceListEntry} {vault : Vault}
    (h : svc.createVault caller request entry tx = .ok vault tx') (other : Vault) :
    tx.data.vaultByOwner caller.ownerKey ≠ .ok other := by
  intro hother
  obtain ⟨_, _, hrefuse, h⟩ := bind_ok.mp h
  obtain ⟨_, rfl⟩ := refuse_ok.mp hrefuse
  obtain ⟨existing, _, hfind, h⟩ := bind_ok.mp h
  rw [find_run hother] at hfind
  cases hfind
  obtain ⟨_, _, hrefuse, _⟩ := bind_ok.mp h
  exact (refuse_ok.mp hrefuse).1 (by simp)

/-- A payload that is from a device is taken from an approved one only. -/
theorem Move.signer {call : Call} (move : Move svc L call L') (hdevice : call.op.byOwner = false)
    (h : call.op.signer = some d) : L.vault.ownerKey = call.caller.ownerKey ∧
      ∃ row, L.device d = some row ∧ row.state = .approved := by
  have hactor : ∀ {actor}, ActsAs call.caller L actor → requireActivated actor = .ok () →
      actor.device.deviceID = d →
      L.vault.ownerKey = call.caller.ownerKey ∧
        ∃ row, L.device d = some row ∧ row.state = .approved := by
    rintro actor acts activated rfl
    obtain ⟨hown, hstate, _⟩ := requireActivated_ok activated
    exact ⟨by rw [acts.vault, acts.owner], actor.device, acts.row hown, hstate⟩
  cases move with
  | offered => cases hdevice
  | answered | confirmed | cancelled | activated => cases h
  | approved acts appends | upgraded acts appends =>
    exact hactor acts appends.activated (appends.signer.symm.trans (Option.some.inj h))
  | rekeyed acts isOp appends =>
    refine hactor acts appends.activated (appends.signer.symm.trans ?_)
    rcases isOp with ⟨_, rfl⟩ | ⟨_, rfl⟩
    · exact Option.some.inj h
    · exact Option.some.inj h
  | uploaded acts activated device | checkpointed acts activated _ device =>
    exact hactor acts activated (device.symm.trans (Option.some.inj h))

/-- The same of a call that succeeds, in the vault of its caller's owner. -/
theorem run_signer {call : Call} (wf : WF tx.data) (h : svc.run (.call call) tx = .ok () tx')
    (hdevice : call.op.byOwner = false) (hsigner : call.op.signer = some d) :
    ∃ w M, tx.data.ledger w = some M ∧ M.vault.ownerKey = call.caller.ownerKey ∧
      ∃ row, M.device d = some row ∧ row.state = .approved := by
  have hstep := (run_step wf h).2
  generalize tx'.data.ledger = book' at hstep
  cases hstep with
  | opened | begun => cases hdevice
  | reset => cases hsigner
  | moved stored move => exact ⟨_, _, stored, move.signer hdevice hsigner⟩

/-! A removed device through the moves. -/

/-- **A move never touches a removed device**, nor the vault's owner. -/
theorem Move.removed {call : Call} {list : DeviceList} {m : DeviceListMember}
    (move : Move svc L call L') (agrees : Agrees svc.crypto L list) (hr : L.device d = some row)
    (hstate : row.state = .revoked) (hm : list.member d = some m) :
    L'.vault.ownerKey = L.vault.ownerKey ∧ L'.device d = some row ∧
      ∃ list', verifyDeviceList svc.crypto L'.entries = .ok list' ∧ list'.member d = some m := by
  obtain ⟨m', hm', hmatch⟩ := agrees.row hr
  rw [hm] at hm'
  obtain rfl := Option.some.inj hm'
  have hremoved := hmatch.revoked_iff.mp hstate
  have hkept : ∀ {actor kind entry list'}, Appends svc L actor kind entry list' →
      verifyDeviceList svc.crypto (L.entries ++ [entry]) = .ok list' ∧ list'.member d = some m := by
    intro actor kind entry list' appends
    obtain ⟨hverified, _, hindex, g⟩ := agrees.grown appends
    exact ⟨hverified, g.removed_kept hindex agrees.wf hm hremoved⟩
  -- an approved device is another one
  have hother : ∀ {e other}, L.device e = some other → other.state = .approved → d ≠ e := by
    rintro e other ho happroved rfl
    rw [hr] at ho
    rw [← Option.some.inj ho, hstate] at happroved
    cases happroved
  cases move with
  | offered | answered | confirmed | cancelled | uploaded | checkpointed =>
    exact ⟨rfl, hr, list, agrees.verified, hm⟩
  | approved acts appends =>
    obtain ⟨_, _, _, g⟩ := agrees.grown appends
    have hfresh := (g.member_add appends.kind).1
    refine ⟨rfl, ?_, _, hkept appends⟩
    simp only
    rw [Function.update_of_ne, hr]
    rintro rfl
    rw [hm] at hfresh
    cases hfresh
  | activated acts approved =>
    obtain ⟨hown, hs⟩ := requireApproved_ok approved
    refine ⟨rfl, ?_, list, agrees.verified, hm⟩
    simp only
    rw [Function.update_of_ne (hother (acts.row hown) hs), hr]
  | upgraded acts appends =>
    obtain ⟨hown, hs, _⟩ := requireActivated_ok appends.activated
    refine ⟨rfl, ?_, _, hkept appends⟩
    simp only
    rw [Function.update_of_ne (hother (acts.row hown) hs), hr]
  | @rekeyed _ _ kind _ entry _ actor _ _ acts isOp appends =>
    refine ⟨rfl, ?_, _, hkept appends⟩
    obtain ⟨_, _, _, g⟩ := agrees.grown appends
    have hsubject : ¬(kind = .remove ∧ row.deviceID = entry.subjectDeviceID) := by
      rintro ⟨rfl, hid⟩
      obtain ⟨subject, hs, hpresent, _⟩ := g.member_remove appends.kind
      rw [← hid, agrees.ids d row hr, hm] at hs
      rw [Option.some.inj hs] at hremoved
      exact hremoved hpresent
    simp only [hr, Option.map_some, Service.rekeyed, rekeyDevice, if_neg hsubject]
    rw [if_neg fun e => by rw [hstate] at e; cases e.2]
    rfl

/-- A device in use after a move was in use before it, with the same token, or the
    move approved it. -/
theorem Move.device_cases {call : Call} (move : Move svc L call L') {e : Bytes} {other : Device}
    (ho : L'.device e = some other) (hstate : other.state ≠ .revoked) :
    (∃ before, L.device e = some before ∧ before.tokenDeviceID = other.tokenDeviceID ∧
      before.state ≠ .revoked) ∨
    ∃ entry pkg, call.op = .approve entry pkg ∧ entry.vaultID = L.vault.id ∧
      entry.subjectDeviceID = e := by
  -- a row rewritten with its token and state
  have hrewrite : ∀ {d₀ : Bytes} {before after : Device},
      Function.update L.device d₀ (some after) e = some other → L.device d₀ = some before →
      after.tokenDeviceID = before.tokenDeviceID → after.state = before.state →
      ∃ before, L.device e = some before ∧ before.tokenDeviceID = other.tokenDeviceID ∧
        before.state ≠ .revoked := by
    intro d₀ before after h hb htoken hs
    rw [Function.update_apply] at h
    split at h
    · next he =>
      obtain rfl := Option.some.inj h
      exact ⟨before, by rw [he]; exact hb, htoken.symm, by rw [← hs]; exact hstate⟩
    · exact ⟨other, h, rfl, hstate⟩
  cases move with
  | offered | answered | confirmed | cancelled | uploaded | checkpointed =>
    exact Or.inl ⟨other, ho, rfl, hstate⟩
  | @approved _ _ entry pkg _ _ _ _ _ acts appends =>
    by_cases he : e = entry.subjectDeviceID
    · exact Or.inr ⟨entry, pkg, rfl, appends.vault, he.symm⟩
    · simp only at ho
      rw [Function.update_of_ne he] at ho
      exact Or.inl ⟨other, ho, rfl, hstate⟩
  | activated acts approved =>
    exact Or.inl (hrewrite ho (acts.row (requireApproved_ok approved).1) rfl rfl)
  | upgraded acts appends =>
    exact Or.inl (hrewrite ho (acts.row (requireActivated_ok appends.activated).1) rfl rfl)
  | @rekeyed _ _ kind _ entry _ actor =>
    obtain ⟨before, hb, rfl⟩ := Option.map_eq_some_iff.mp ho
    obtain ⟨_, htoken, _, _, _, hs⟩ := rekeyed_fields actor kind entry before
    refine Or.inl ⟨before, hb, htoken.symm, fun hrevoked => hstate ?_⟩
    rw [hs, hrevoked]
    split <;> rfl

/-! The vault after a removal. -/

/-- The event is an accepted call of the token for the operation. -/
def CallBy (owner token : Bytes) (op : Op) (event : Event) : Prop :=
  ∃ caller request spent, caller.ownerKey = owner ∧ caller.tokenDeviceID = token ∧
    event = .ran (.call ⟨caller, request, op⟩) none spent

/-- The token has begun the pairing among the events, and, if the pairing is
    confirmed, confirmed it after that. -/
def Renewed (owner : Bytes) (events : List Event) (p : Pairing) : Prop :=
  ∃ offer first, CallBy owner p.tokenDeviceID (.beginPairing offer) first ∧ first ∈ events ∧
    (p.state = .confirmed → ∃ message second,
      CallBy owner p.tokenDeviceID (.confirmPairing message) second ∧
      [first, second].Sublist events)

/-- An approval of the device in the vault is among the events. -/
def Admitted (v : Bytes) (events : List Event) (e : Bytes) : Prop :=
  ∃ caller request entry pkg spent, entry.vaultID = v ∧ entry.subjectDeviceID = e ∧
    .ran (.call ⟨caller, request, .approve entry pkg⟩) none spent ∈ events

/-- The vault after `d` was removed by entry `k`, and the events since. -/
structure Cut (svc : Service) (v d : Bytes) (row : Device) (k : Nat) (owner : Bytes)
    (events : List Event) (L : Ledger) : Prop where
  ownerKey : L.vault.ownerKey = owner
  device : L.device d = some row
  revoked : row.state = .revoked
  member : ∃ list m, verifyDeviceList svc.crypto L.entries = .ok list ∧
    list.member d = some m ∧ m.removedIndex = k
  pairings : ∀ e p, L.pairing e = some p → Renewed owner events p
  devices : ∀ e other, L.device e = some other → other.tokenDeviceID = row.tokenDeviceID →
    other.state ≠ .revoked → Admitted v events e

variable {events shown before : List Event} {sys : Sys}

theorem Renewed.later {p : Pairing} (h : Renewed owner events p) :
    Renewed owner (events ++ shown) p := by
  obtain ⟨offer, first, hcall, hmem, hconfirmed⟩ := h
  refine ⟨offer, first, hcall, List.mem_append_left _ hmem, fun hs => ?_⟩
  obtain ⟨message, second, hcall', hsub⟩ := hconfirmed hs
  exact ⟨message, second, hcall', hsub.trans (List.sublist_append_left _ _)⟩

theorem Admitted.later {e : Bytes} (h : Admitted v events e) : Admitted v (events ++ shown) e := by
  obtain ⟨caller, request, entry, pkg, spent, hv, he, hmem⟩ := h
  exact ⟨caller, request, entry, pkg, spent, hv, he, List.mem_append_left _ hmem⟩

theorem Cut.later (h : Cut svc v d row k owner events L) :
    Cut svc v d row k owner (events ++ shown) L :=
  ⟨h.ownerKey, h.device, h.revoked, h.member, fun e p hp => (h.pairings e p hp).later,
    fun e other ho ht hs => (h.devices e other ho ht hs).later⟩

/-- The pairings after a step: as before, or the step is the token's own call. -/
theorem Cut.renewed {action : Action}
    (run : Run svc Any before sys) (hrun : svc.run action ⟨sys.data, sys.ticks, none⟩ = .ok () tx)
    (hL : sys.data.ledger v = some L) (h : Cut svc v d row k owner events L)
    (hL' : tx.data.ledger v = some L') {e : Bytes} {p : Pairing} (hp : L'.pairing e = some p) :
    Renewed owner (events ++ [.ran action none tx.spent]) p := by
  have hsame : ∀ {M : Ledger}, sys.data.ledger v = some M → M = L := by
    intro M hM
    rw [hL] at hM
    exact (Option.some.inj hM).symm
  rcases run.pairing_cases hrun hL' hp with ⟨M, hM, hold⟩ |
    ⟨caller, request, offer, M, previous, rfl, b, rfl, rfl, rfl⟩ |
    ⟨caller, request, message, M, actor, p₀, rfl, a, rfl, rfl⟩ |
    ⟨caller, request, message, M, actor, p₁, rfl, c, rfl, rfl, rfl⟩
  · obtain rfl := hsame hM
    exact (h.pairings e p hold).later
  · obtain rfl := hsame b.stored
    refine ⟨offer, _, ⟨caller, request, tx.spent, b.owner.symm.trans h.ownerKey, rfl, rfl⟩, by simp,
      fun hs => by cases hs⟩
  · obtain rfl := hsame a.stored
    obtain ⟨offer, first, hcall, hmem, _⟩ := h.pairings e p₀ a.found
    exact ⟨offer, first, hcall, List.mem_append_left _ hmem, fun hs => by cases hs⟩
  · obtain rfl := hsame c.stored
    obtain ⟨hfound, htoken, _⟩ := c.acts.pairing p₁ c.own
    obtain ⟨offer, first, hcall, hmem, _⟩ := h.pairings _ p₁ hfound
    have howner : caller.ownerKey = owner := by rw [← c.acts.owner, ← c.acts.vault, h.ownerKey]
    refine ⟨offer, first, hcall, List.mem_append_left _ hmem, fun _ => ⟨message, _,
      ⟨caller, request, tx.spent, howner, htoken.symm, rfl⟩, ?_⟩⟩
    exact (List.singleton_sublist.mpr hmem).append (List.Sublist.refl _)

/-- **An accepted action keeps a removed device cut off**, if it keeps the vault. -/
theorem Cut.step {action : Action}
    (run : Run svc Any before sys) (hrun : svc.run action ⟨sys.data, sys.ticks, none⟩ = .ok () tx)
    (hL : sys.data.ledger v = some L) (h : Cut svc v d row k owner events L)
    (hL' : tx.data.ledger v = some L') :
    Cut svc v d row k owner (events ++ [.ran action none tx.spent]) L' := by
  obtain ⟨list, m, hverified, hm, hk⟩ := h.member
  have hpairings := fun e p hp => h.renewed run hrun hL hL' (e := e) (p := p) hp
  -- a move from this ledger, or from it with its expired pairings left out
  have hmove : ∀ {call : Call} {M : Ledger}, action = .call call → Move svc M call L' →
      M.vault = L.vault → M.device = L.device → M.entries = L.entries →
      Agrees svc.crypto M list →
      Cut svc v d row k owner (events ++ [.ran action none tx.spent]) L' := by
    intro call M hcall move hvault hdevice hentries agrees
    obtain ⟨howner, hrow, list', hverified', hm'⟩ :=
      move.removed agrees (by rw [hdevice]; exact h.device) h.revoked hm
    refine ⟨howner.trans (by rw [hvault]; exact h.ownerKey), hrow, h.revoked,
      ⟨list', m, hverified', hm', hk⟩, hpairings, fun e other ho ht hs => ?_⟩
    rcases move.device_cases ho hs with ⟨before, hb, htoken, hbs⟩ | ⟨entry, pkg, hop, hv, he⟩
    · rw [hdevice] at hb
      exact (h.devices e before hb (htoken.trans ht) hbs).later
    · refine ⟨call.caller, call.request, entry, pkg, tx.spent, ?_, he, ?_⟩
      · rw [hv, hvault]
        exact run.wf.ledger_id hL
      · rw [hcall, ← hop]
        simp
  obtain ⟨list₀, agrees⟩ := run.agrees.2 v L hL
  obtain rfl : list₀ = list := Except.ok.inj (agrees.verified.symm.trans hverified)
  have hchange := run.change hrun v
  rw [hL, hL'] at hchange
  cases hchange with
  | same => exact h.later
  | expired => exact ⟨h.ownerKey, h.device, h.revoked, h.member, hpairings, h.later.devices⟩
  | begun move =>
    exact hmove rfl move rfl rfl rfl ⟨agrees.verified, agrees.head, agrees.epoch, agrees.vault,
      agrees.ids, agrees.rows⟩
  | moved move => exact hmove rfl move rfl rfl rfl agrees

/-- **A removal cuts the device off.** -/
theorem Cut.first {entry : DeviceListEntry}
    {packages : List KeyPackageV3} (run : Run svc Any before sys)
    (hrun : svc.run (.call ⟨caller, request, .remove entry packages⟩) ⟨sys.data, sys.ticks, none⟩ =
      .ok () tx) :
    ∃ L row L', sys.data.ledger entry.vaultID = some L ∧ L.device entry.subjectDeviceID = some row ∧
      tx.data.ledger entry.vaultID = some L' ∧
      Cut svc entry.vaultID entry.subjectDeviceID { row with state := .revoked } entry.index
        L.vault.ownerKey [] L' := by
  have hchange := run.change hrun entry.vaultID
  generalize hbefore : sys.data.ledger entry.vaultID = before at hchange
  generalize hafter : tx.data.ledger entry.vaultID = after at hchange
  cases hchange with
  | same elsewhere | expired elsewhere | closed elsewhere => exact absurd rfl elsewhere
  | @moved call L L' move =>
    cases move with
    | @rekeyed _ _ kind _ entry' packages' actor list' now acts isOp appends =>
      rcases isOp with ⟨rfl, hop⟩ | ⟨_, hop⟩
      · obtain ⟨rfl, rfl⟩ := Op.remove.inj hop
        obtain ⟨list, agrees⟩ := run.agrees.2 _ L hbefore
        obtain ⟨hverified, _, _, g⟩ := agrees.grown appends
        obtain ⟨subject, hsubject, hpresent, hmember⟩ := g.member_remove appends.kind
        obtain ⟨row, hr, hmatch⟩ := agrees.member hsubject
        have happroved := hmatch.approved_iff.mpr hpresent
        have hid := agrees.ids _ row hr
        have hrekeyed : ∀ {row : Device}, row.deviceID = entry.subjectDeviceID →
            Service.rekeyed actor .remove entry row = { row with state := .revoked } := by
          intro row hid
          simp [Service.rekeyed, rekeyDevice, hid]
        refine ⟨L, row, _, rfl, hr, rfl, rfl, ?_, rfl, ⟨list', _, hverified,
          (hmember _).trans (if_pos rfl), rfl⟩, fun e p hp => (by cases hp),
          fun e other ho ht hs => ?_⟩
        · simp only [hr, Option.map_some, hrekeyed hid]
        · -- no other device in use had the token
          obtain ⟨b, hb, rfl⟩ := Option.map_eq_some_iff.mp ho
          obtain ⟨hbid, htoken, _, _, _, hstate⟩ := rekeyed_fields actor .remove entry b
          have he : e ≠ entry.subjectDeviceID := by
            rintro rfl
            exact hs (by rw [hstate, if_pos ⟨rfl, agrees.ids _ b hb⟩])
          have hrevoked := (run.tokens.2 _ L hbefore).unique _ row hr (by rw [happroved]; decide) e b hb
            (htoken.symm.trans ht) he
          refine absurd ?_ hs
          rw [hstate, hrevoked]
          split <;> rfl
      · cases hop

/-- **A removed device stays cut off** while its vault is kept. -/
theorem Run.cut {later : List Event} {sys' : Sys} {H : Sys → Prop} (run : Run svc Any before sys)
    (path : Path (Next svc) H sys later sys') (kept : ∀ s, H s → s.data.Stored v)
    (hL : sys.data.ledger v = some L) (first : Cut svc v d row k owner [] L) :
    ∃ L', sys'.data.ledger v = some L' ∧ Cut svc v d row k owner later L' := by
  refine Run.traced (Q := fun later book => ∃ L', book v = some L' ∧ Cut svc v d row k owner later L')
    run path ⟨L, hL, first⟩ ?_ ?_
  · rintro later book shown _ ⟨L', hL', h⟩
    exact ⟨L', hL', h.later⟩
  · rintro later sys' action tx run' hrun hH ⟨L', hL', h⟩
    obtain ⟨vault, hvault⟩ := Option.isSome_iff_exists.mp (kept _ hH)
    exact ⟨_, ledger_of_lookup hvault, h.step run' hrun hL' (ledger_of_lookup hvault)⟩

/-! What it is cut off from. -/

def Fails {α : Type} (x : TxM α) (tx : Tx) : Prop := ∀ a tx', x tx ≠ .ok a tx'

/-- A device with another id was approved since, and has the token. -/
def Rejoined (v d token : Bytes) (events : List Event) (sys : Sys) : Prop :=
  ∃ e row, e ≠ d ∧ Admitted v events e ∧ sys.data.device v e = .ok row ∧
    row.tokenDeviceID = token ∧ row.state = .approved

/-- The token has a confirmed pairing that it began and confirmed since. -/
def Repaired (v owner token : Bytes) (events : List Event) (sys : Sys) : Prop :=
  ∃ e p, sys.data.pairing v e = .ok p ∧ p.tokenDeviceID = token ∧ p.state = .confirmed ∧
    Renewed owner events p

/-- What a device removed by entry `k` has lost, `events` after its removal. -/
structure ShutOut (svc : Service) (v d : Bytes) (k : Nat) (owner token : Bytes)
    (events : List Event) (sys : Sys) : Prop where
  calls : ∀ call, call.caller.ownerKey = owner → ActsUnder svc sys call d →
    (exec svc (.call call) sys).1.accepted = false ∧ (exec svc (.call call) sys).2.data = sys.data
  views : ∀ caller view ticks, caller.ownerKey = owner → caller.tokenDeviceID = token →
    view.needsApproval = true → ¬Rejoined v d token events sys →
    Fails (svc.view caller view) ⟨sys.data, ticks, none⟩
  deviceList : ∀ caller after limit ticks, caller.ownerKey = owner →
    caller.tokenDeviceID = token → ¬Rejoined v d token events sys →
    ¬Repaired v owner token events sys →
    Fails (svc.view caller (.deviceList after limit)) ⟨sys.data, ticks, none⟩
  list : ∃ list, loadList svc.crypto sys.data v = .ok list ∧
    d ∉ list.current.map (·.deviceID) ∧
    ∀ previous header, header.deviceID = d → k ≤ header.deviceListIndex →
      verifyHeader svc.crypto list previous header ≠ .ok ()
  pairing : sys.data.pairing v d = .error (.is .notFound)
  keyPackage : sys.data.keyPackage v d = .error (.is .notFound)
  uploads : ∀ caller request header ciphertext, header.vaultID = v → header.deviceID = d →
    (exec svc (.call ⟨caller, request, .upload header ciphertext⟩) sys).1.accepted = false

namespace Cut

variable {sys : Sys} {events before : List Event}

section
variable (h : Cut svc v d row k owner events L)
include h

theorem not_approved {other : Device} (ho : L.device d = some other) : other.state ≠ .approved := by
  rw [h.device] at ho
  rw [← Option.some.inj ho, h.revoked]
  decide

/-- **No call under the device's id succeeds.** -/
theorem refuses (run : Run svc Any before sys) (hL : sys.data.ledger v = some L) {call : Call}
    (howner : call.caller.ownerKey = owner) (hunder : ActsUnder svc sys call d) (tx : Tx) :
    svc.run (.call call) ⟨sys.data, sys.ticks, none⟩ ≠ .ok () tx := by
  intro hrun
  have hvault : ∀ {w M}, sys.data.ledger w = some M → M.vault.ownerKey = call.caller.ownerKey →
      M = L := by
    intro w M hM hown
    exact run.wf.ledger_owner hL hM (hown.trans (howner.trans h.ownerKey.symm))
  obtain ⟨caller, request, op⟩ := call
  cases hop : op.byOwner with
  | true =>
    cases op with
    | createVault entry =>
      obtain ⟨_, _, hcreate, _⟩ := bind_ok.mp hrun
      refine createVault_fresh hcreate L.vault ?_
      rw [show caller.ownerKey = L.vault.ownerKey from howner.trans h.ownerKey.symm]
      exact vaultByOwner_of run.wf hL
    | beginPairing offer =>
      obtain ⟨M, previous, b⟩ := beginPairing_ok (by exact run.wf) hrun
      obtain rfl := hvault b.stored b.owner
      rcases hunder with hsigner | ⟨hdevice, _⟩
      · have hunused := b.unused
        rw [Option.some.inj hsigner, h.device] at hunused
        cases hunused
      · cases hdevice
    | _ => cases hop
  | false =>
    rcases hunder with hsigner | ⟨_, actor, tx₁, hactor, hid⟩
    · obtain ⟨w, M, hM, hown, other, ho, happroved⟩ := run_signer run.wf hrun hop hsigner
      obtain rfl := hvault hM hown
      exact h.not_approved ho happroved
    · obtain ⟨actor', _, hactor', hable⟩ := run_acts hrun hop
      rw [hactor] at hactor'
      cases hactor'
      obtain ⟨_, _, _, _, M, hM, acts⟩ := actorFor_ok (by exact run.wf) hactor
      obtain rfl := hvault hM (by rw [acts.vault, acts.owner])
      rcases hable with hpairing | happroved
      · -- the actor's pairing would be one for the device's own id
        obtain ⟨p, hp⟩ := Option.ne_none_iff_exists'.mp hpairing
        obtain ⟨hfound, _, hdevice⟩ := acts.pairing p hp
        rw [hdevice] at hid
        have hapart := (run.pairings _ _ hL).apart _ p hfound
        rw [show p.deviceID = d from hid, h.device] at hapart
        cases hapart
      · obtain ⟨hown, hstate⟩ := requireApproved_ok happroved
        have hrow := acts.row hown
        rw [hid] at hrow
        exact h.not_approved hrow hstate

/-- An approved actor of the device's token is a device that joined since. -/
theorem rejoined (hL : sys.data.ledger v = some L) {actor : Actor} (acts : ActsAs caller L actor)
    (htoken : caller.tokenDeviceID = row.tokenDeviceID) (hown : actor.pairing = none)
    (hstate : actor.device.state = .approved) : Rejoined v d row.tokenDeviceID events sys := by
  obtain ⟨hrow, ht⟩ := acts.device hown
  have ht' : actor.device.tokenDeviceID = row.tokenDeviceID := ht.trans htoken
  refine ⟨actor.device.deviceID, actor.device, ?_, ?_, (device_ledger hL).mpr hrow, ht', hstate⟩
  · intro hid
    rw [hid] at hrow
    exact h.not_approved hrow hstate
  · exact h.devices _ _ hrow ht' (by rw [hstate]; decide)

/-- **Whom of the token's callers a view still answers.** -/
theorem answers (wf : WF sys.data)
    (hL : sys.data.ledger v = some L) (howner : caller.ownerKey = owner) {view : View} {ticks : Nat}
    {u : Unit} (hview : svc.view caller view ⟨sys.data, ticks, none⟩ = .ok u tx') :
    ∃ actor, ActsAs caller L actor ∧ view.answers actor := by
  obtain ⟨actor, tx₁, hactor, hanswers⟩ := view_actor hview
  obtain ⟨_, _, _, _, M, hM, acts⟩ := actorFor_ok (by exact wf) hactor
  have hown : M.vault.ownerKey = L.vault.ownerKey := by
    rw [acts.vault, acts.owner, howner, h.ownerKey]
  obtain rfl := wf.ledger_owner hL hM hown
  exact ⟨actor, acts, hanswers⟩

end

/-- No header that names the device and entry `k` or a later one verifies. -/
theorem refuses_header {list : DeviceList} {m : DeviceListMember} (hm : list.member d = some m)
    (hk : m.removedIndex = k) (hpos : k ≠ 0) {previous : Option Header} {header : Header}
    (hd : header.deviceID = d) (hle : k ≤ header.deviceListIndex) :
    verifyHeader svc.crypto list previous header ≠ .ok () := by
  intro hverify
  obtain ⟨_, _, _, _, _, _, hsigner⟩ := verifyHeader_ok.mp hverify
  unfold verifySigner at hsigner
  cases hs : list.memberAt header.deviceID header.deviceListIndex with
  | none => simp [hs] at hsigner
  | some signer =>
    obtain ⟨m₀, hm₀, hat, _⟩ := memberAt_some hs
    rw [hd, hm] at hm₀
    obtain rfl := Option.some.inj hm₀
    simp only [DeviceListMember.memberAt, Bool.and_eq_true, Bool.or_eq_true, beq_iff_eq,
      decide_eq_true_eq, hk] at hat
    omega

theorem shutOut (h : Cut svc v d row k owner events L) (run : Run svc Any before sys)
    (hL : sys.data.ledger v = some L) : ShutOut svc v d k owner row.tokenDeviceID events sys := by
  obtain ⟨list, agrees, supplied⟩ := run.supplied.2 v L hL
  have hrefused : ∀ call, (∀ tx, svc.run (.call call) ⟨sys.data, sys.ticks, none⟩ ≠ .ok () tx) →
      (exec svc (.call call) sys).1.accepted = false ∧
        (exec svc (.call call) sys).2.data = sys.data := by
    intro call hfails
    rcases exec_cases svc (.call call) sys with ⟨tx, hrun, _⟩ | ⟨e, tx, _, hexec⟩
    · exact absurd hrun (hfails tx)
    · rw [hexec]
      exact ⟨rfl, rfl⟩
  refine ⟨fun call howner hunder => hrefused call (h.refuses run hL howner hunder), ?_, ?_, ?_, ?_, ?_, ?_⟩
  · intro caller view ticks howner htoken hneeds hnot u tx' hview
    obtain ⟨actor, acts, hanswers⟩ := h.answers run.wf hL howner hview
    have happroved : requireApproved actor = .ok () := by
      cases view <;> first | exact hanswers | cases hneeds
    obtain ⟨hown, hstate⟩ := requireApproved_ok happroved
    exact hnot (h.rejoined hL acts htoken hown hstate)
  · intro caller after limit ticks howner htoken hnot hnot' u tx' hview
    obtain ⟨actor, acts, hstate, hconfirmed⟩ := h.answers run.wf hL howner hview
    cases hp : actor.pairing with
    | none => exact hnot (h.rejoined hL acts htoken hp (hstate hp))
    | some p =>
      obtain ⟨hfound, ht, _⟩ := acts.pairing p hp
      exact hnot' ⟨p.deviceID, p, (pairing_ledger hL).mpr hfound, ht.trans htoken, hconfirmed p hp,
        h.pairings _ p hfound⟩
  · obtain ⟨list', m, hverified, hm, hk⟩ := h.member
    obtain rfl := Except.ok.inj (agrees.verified.symm.trans hverified)
    obtain ⟨m', hm', hmatch⟩ := agrees.row h.device
    rw [hm] at hm'
    obtain rfl := Option.some.inj hm'
    have hpos := hmatch.revoked_iff.mp h.revoked
    refine ⟨list, ?_, fun hmem => ?_, fun previous header hd hle =>
      refuses_header hm hk (hk ▸ hpos) hd hle⟩
    · rw [loadList_ledger hL]
      exact (loads_iff agrees.verified).mpr rfl
    · obtain ⟨other, ho, hs⟩ := agrees.current_iff.mp hmem
      exact h.not_approved ho hs
  · refine pairing_none hL ?_
    cases hp : L.pairing d with
    | none => rfl
    | some p =>
      have hapart := (run.pairings v L hL).apart d p hp
      rw [h.device] at hapart
      cases hapart
  · refine keyPackage_none hL ?_
    cases hp : L.package d with
    | none => rfl
    | some pkg =>
      obtain ⟨_, other, ho, hs⟩ := supplied.packages d pkg hp
      exact absurd hs (h.not_approved ho)
  · intro caller request header ciphertext hv hd
    refine (hrefused _ fun tx hrun => ?_).1
    have hchange := run.change hrun v
    rw [hL] at hchange
    generalize tx.data.ledger v = after at hchange
    cases hchange with
    | same elsewhere | expired elsewhere | closed elsewhere =>
      exact elsewhere (congrArg some hv)
    | moved move =>
      obtain ⟨_, other, ho, hs⟩ := move.signer rfl (congrArg some hd)
      exact h.not_approved ho hs

end Cut

/-- **A removed device is shut out.** After an accepted `Remove`, in every
    continuation that keeps the vault: no call under the device's id is accepted or
    changes the store; its token reads nothing of the members', unless a device with
    another id was approved for it since, and not the device list either, unless the
    token also began and confirmed a new pairing since; the device is no member, has
    no pairing and no key package; and no header of the device that names the
    removing entry or a later one verifies or is uploaded. -/
theorem removed_device_shut_out {events : List Event} {sys : Sys} (run : Run svc Any events sys)
    {entry : DeviceListEntry} {packages : List KeyPackageV3}
    (accepted : (exec svc (.call ⟨caller, request, .remove entry packages⟩) sys).1.accepted = true) :
    ∃ vault row, sys.data.vaults.lookup entry.vaultID = some vault ∧
      sys.data.device entry.vaultID entry.subjectDeviceID = .ok row ∧
      ∀ later sys', Path (Next svc) (fun s => s.data.Stored entry.vaultID)
          (exec svc (.call ⟨caller, request, .remove entry packages⟩) sys).2 later sys' →
        ShutOut svc entry.vaultID entry.subjectDeviceID entry.index vault.ownerKey
          row.tokenDeviceID later sys' := by
  rcases exec_cases svc (.call ⟨caller, request, .remove entry packages⟩) sys with
    ⟨tx, hrun, hexec⟩ | ⟨e, tx, hrun, hexec⟩
  · obtain ⟨L, row, L', hL, hr, hL', hcut⟩ := Cut.first run hrun
    refine ⟨L.vault, row, (ledger_some hL).1, (device_ledger hL).mpr hr, fun later sys' path => ?_⟩
    have run' := run.next (.act (.call ⟨caller, request, .remove entry packages⟩))
    have hafter : (exec svc (.call ⟨caller, request, .remove entry packages⟩) sys).2.data.ledger
        entry.vaultID = some L' := by
      rw [hexec]
      exact hL'
    obtain ⟨L'', hL'', h⟩ := run'.cut path (fun _ hs => hs) hafter hcut
    exact h.shutOut (run'.extend path) hL''
  · rw [hexec] at accepted
    cases accepted

namespace Demo

/-- Device 2 tries to activate and to pair again, another device pairs, and the
    service cleans up. -/
def afterRemoval : List Action :=
  [.call (call 2 1000 7 (.activate [])),
   .call (call 2 1000 8 (.beginPairing ⟨deviceID 2, signingKey 2, packageKey 2, utf8 "offer"⟩)),
   .call (call 3 1000 9 (.beginPairing ⟨deviceID 3, signingKey 3, packageKey 3, utf8 "offer"⟩)),
   .maintain]

def without : Sys :=
  (exec (service (still 1000)) removal (execAll (service (still 1000)) paired start).2).2

theorem removed_device_shut_out_paired :
    (execAll (service (still 1000)) afterRemoval without).1.map Event.accepted =
      [false, false, true, true] ∧
    ShutOut (service (still 1000)) vaultID (deviceID 2) 3 ownerKey (Demo.caller 2).tokenDeviceID
      (execAll (service (still 1000)) afterRemoval without).1
      (execAll (service (still 1000)) afterRemoval without).2 := by
  have haccepted : (exec (service (still 1000)) removal
      (execAll (service (still 1000)) paired start).2).1.accepted = true := by decide +kernel
  have howner : ((execAll (service (still 1000)) paired start).2.data.vaults.lookup vaultID).map
      (·.ownerKey) = some ownerKey := by decide +kernel
  have htoken : ((execAll (service (still 1000)) paired start).2.data.device vaultID
      (deviceID 2)).toOption.map (·.tokenDeviceID) = some (Demo.caller 2).tokenDeviceID := by
    decide +kernel
  have hkept : ∀ n ≤ afterRemoval.length,
      (execAll (service (still 1000)) (afterRemoval.take n) without).2.data.Stored vaultID := by
    unfold State.Stored
    decide +kernel
  obtain ⟨vault, row, hvault, hrow, hout⟩ :=
    removed_device_shut_out (execAll_start _ paired) haccepted
  rw [show removeEntry.vaultID = vaultID from rfl] at hvault hrow hout
  rw [hvault] at howner
  rw [show removeEntry.subjectDeviceID = deviceID 2 from rfl] at hrow
  rw [hrow] at htoken
  have hlast := hout _ _ (execAll_path afterRemoval hkept)
  rw [show vault.ownerKey = ownerKey from Option.some.inj howner,
    show row.tokenDeviceID = (Demo.caller 2).tokenDeviceID from Option.some.inj htoken] at hlast
  exact ⟨by decide +kernel, hlast⟩

end Demo

end Sesame.Syncsvc
