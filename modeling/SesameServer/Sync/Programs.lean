import SesameServer.Sync.Effects

/- What the parts of an operation do: one lemma for each part, from a successful
   run to its effect on the transaction, so that no later proof unfolds a part.

   1. `query`, `find`, `update`, `write`, `now` — the statements.
   2. `actorFor_ok` — who acts: a device of the caller's vault, or the pairing of
      the caller's token; and `actorFor_device`, that an approved device is the
      actor of its token.
   3. `verifyRequest_ok` — a verified request changes nothing but the nonce
      table.
   4. The loops of `rekey` and `makeRoom`. -/
namespace Sesame.Syncsvc
open Syncproto Outcome

variable {α : Type} {tx tx' : Tx} {u : Unit}

/-! Statements. -/

variable {f : State → Except Err α}

theorem query_ok {a : α} : query f tx = .ok a tx' ↔ f tx.data = .ok a ∧ tx = tx' := by
  simp only [query, bind_ok, get_ok, lift_ok]
  constructor
  · rintro ⟨_, _, ⟨rfl, rfl⟩, h, rfl⟩
    exact ⟨h, rfl⟩
  · rintro ⟨h, rfl⟩
    exact ⟨tx, tx, ⟨rfl, rfl⟩, h, rfl⟩

theorem find_ok {x : Option α} (h : find f tx = .ok x tx') :
    tx = tx' ∧ (∀ a, x = some a → f tx.data = .ok a) ∧ (x = none → ∃ e, f tx.data = .error e) := by
  simp only [find, bind_ok, get_ok] at h
  obtain ⟨_, _, ⟨rfl, rfl⟩, h⟩ := h
  cases hf : f tx.data with
  | ok a =>
    simp only [hf, pure_ok] at h
    obtain ⟨rfl, rfl⟩ := h
    exact ⟨rfl, fun b hb => by rw [Option.some.inj hb], fun hb => by cases hb⟩
  | error e =>
    simp only [hf] at h
    by_cases hn : e.has .notFound = true
    · rw [if_pos hn] at h
      obtain ⟨rfl, rfl⟩ := pure_ok.mp h
      exact ⟨rfl, fun b hb => (by cases hb), fun _ => ⟨e, rfl⟩⟩
    · rw [if_neg hn] at h
      exact (throw_ok.mp h).elim

theorem find_run {a : α} (h : f tx.data = .ok a) : find f tx = .ok (some a) tx := by
  unfold find
  rw [bind_run (get_ok.mpr ⟨rfl, rfl⟩)]
  simp only [h]
  rfl

theorem query_run {a : α} (h : f tx.data = .ok a) : query f tx = .ok a tx := query_ok.mpr ⟨h, rfl⟩

theorem update_ok {f : State → Except Err State} :
    update f tx = .ok u tx' ↔ ∃ data, f tx.data = .ok data ∧ { tx with data := data } = tx' := by
  simp only [update, bind_ok, get_ok, lift_ok, set_ok]
  constructor
  · rintro ⟨_, _, ⟨rfl, rfl⟩, data, _, ⟨h, rfl⟩, rfl⟩
    exact ⟨data, h, rfl⟩
  · rintro ⟨data, h, rfl⟩
    exact ⟨tx, tx, ⟨rfl, rfl⟩, data, tx, ⟨h, rfl⟩, rfl⟩

theorem write_ok {f : State → State} :
    write f tx = .ok u tx' ↔ { tx with data := f tx.data } = tx' := modify_ok

theorem update_run {f : State → Except Err State} {data : State} (h : f tx.data = .ok data) :
    update f tx = .ok () { tx with data := data } := update_ok.mpr ⟨data, h, rfl⟩

theorem write_run {f : State → State} : write f tx = .ok () { tx with data := f tx.data } :=
  write_ok.mpr rfl

theorem orInvalid_ok {r : Except Err α} {a : α} : orInvalid r = .ok a ↔ r = .ok a := by
  cases r <;> simp [orInvalid]

namespace Service

variable {svc : Service} {caller : Caller} {request : SignedRequest}

theorem now_ok {t : Time} : svc.now tx = .ok t tx' ↔
    svc.clock tx.ticks = t ∧ { tx with ticks := tx.ticks + 1 } = tx' := by
  simp only [now, bind_ok, get_ok, set_ok, pure_ok]
  constructor
  · rintro ⟨_, _, ⟨rfl, rfl⟩, _, _, rfl, h, rfl⟩
    exact ⟨h, rfl⟩
  · rintro ⟨h, rfl⟩
    exact ⟨tx, tx, ⟨rfl, rfl⟩, ⟨⟩, _, rfl, h, rfl⟩

theorem unix_ok {n : Nat} : svc.unix tx = .ok n tx' ↔
    (unixSeconds (svc.clock tx.ticks)).toNat = n ∧ { tx with ticks := tx.ticks + 1 } = tx' := by
  simp only [unix, bind_ok, now_ok, pure_ok]
  constructor
  · rintro ⟨_, _, ⟨rfl, rfl⟩, h, rfl⟩
    exact ⟨h, rfl⟩
  · rintro ⟨h, rfl⟩
    exact ⟨_, _, ⟨rfl, rfl⟩, h, rfl⟩

theorem vaultOf_ok {owner : Bytes} {vault : Vault} (h : vaultOf owner tx = .ok vault tx') :
    tx = tx' ∧ tx.data.vaultByOwner owner = .ok vault := by
  simp only [vaultOf, bind_ok] at h
  obtain ⟨x, _, hfind, h⟩ := h
  obtain ⟨rfl, hsome, _⟩ := find_ok hfind
  cases x with
  | none => exact (throw_ok.mp h).elim
  | some a =>
    obtain ⟨rfl, rfl⟩ := pure_ok.mp h
    exact ⟨rfl, hsome _ rfl⟩

/-! Who acts. -/

end Service

namespace State

variable {s : State} {v : Bytes} {L : Ledger}

theorem vaultByOwner_ok (wf : WF s) {owner : Bytes} {vault : Vault}
    (h : s.vaultByOwner owner = .ok vault) :
    vault.ownerKey = owner ∧ ∃ L, s.ledger vault.id = some L ∧ L.vault = vault := by
  unfold vaultByOwner at h
  cases hf : s.vaults.values.find? (fun x => x.ownerKey = owner) with
  | none => simp [hf] at h
  | some x =>
    simp only [hf] at h
    obtain rfl := Except.ok.inj h
    obtain ⟨k, hk⟩ := Table.mem_values.mp (List.mem_of_find?_eq_some hf)
    refine ⟨by simpa using List.find?_some hf, s.ledgerOf k x, ?_, rfl⟩
    rw [(wf.vaults k x hk).1]
    exact ledger_of_lookup hk

theorem vaultByOwner_of (wf : WF s) (hL : s.ledger v = some L) :
    s.vaultByOwner L.vault.ownerKey = .ok L.vault := by
  have hlook := (ledger_some hL).1
  unfold vaultByOwner
  cases hf : s.vaults.values.find? (fun x => x.ownerKey = L.vault.ownerKey) with
  | none =>
    have := List.find?_eq_none.mp hf L.vault (Table.mem_values.mpr ⟨v, hlook⟩)
    simp at this
  | some x =>
    obtain ⟨k, hk⟩ := Table.mem_values.mp (List.mem_of_find?_eq_some hf)
    have howner : x.ownerKey = L.vault.ownerKey := by simpa using List.find?_some hf
    obtain rfl := wf.owners k v x L.vault hk hlook howner
    rw [hk] at hlook
    rw [Option.some.inj hlook]

variable {token : Bytes} {row : Device}

/-- Whatever row the loop of `DeviceByToken` holds is one of the token's rows. -/
theorem foldl_betterDevice_mem {rows : List Device} {found : Option Device}
    (h : rows.foldl (betterDevice v token) found = some row) :
    found = some row ∨ (row ∈ rows ∧ row.vaultID = v ∧ row.tokenDeviceID = token) := by
  induction rows generalizing found with
  | nil => exact Or.inl h
  | cons r rows ih =>
    rcases ih h with hb | ⟨hm, hrow⟩
    · unfold betterDevice at hb
      split at hb
      · exact Or.inl hb
      · next hmine =>
        push Not at hmine
        cases found with
        | none =>
          obtain rfl := Option.some.inj hb
          exact Or.inr ⟨List.mem_cons_self, hmine⟩
        | some best =>
          simp only at hb
          split at hb
          · obtain rfl := Option.some.inj hb
            exact Or.inr ⟨List.mem_cons_self, hmine⟩
          · exact Or.inl hb
    · exact Or.inr ⟨List.mem_cons_of_mem _ hm, hrow⟩

theorem deviceByToken_ok (wf : WF s) (hL : s.ledger v = some L)
    (h : s.deviceByToken v token = .ok row) :
    L.device row.deviceID = some row ∧ row.tokenDeviceID = token := by
  unfold deviceByToken at h
  cases hf : s.devices.values.foldl (betterDevice v token) none with
  | none => simp [hf] at h
  | some found =>
    simp only [hf] at h
    split at h
    · cases h
    · obtain rfl := Except.ok.inj h
      rcases foldl_betterDevice_mem hf with hn | ⟨hm, hv, ht⟩
      · cases hn
      · exact ⟨(wf.mem_devices hL).mp ⟨hm, hv⟩, ht⟩

section
variable {found : Option Device} {r : Device}
  (hr : r.vaultID = v → r.tokenDeviceID = token → r = row ∨ r.state = .revoked)
include hr

/-- The loop of `DeviceByToken` holds `row` or a revoked row, if it meets no others. -/
theorem betterDevice_yields (hfound : ∀ best, found = some best → best = row ∨ best.state = .revoked) :
    ∀ best, betterDevice v token found r = some best → best = row ∨ best.state = .revoked := by
  intro best hb
  unfold betterDevice at hb
  split at hb
  · exact hfound best hb
  · next hmine =>
    push Not at hmine
    have hr := hr hmine.1 hmine.2
    cases found with
    | none => exact Option.some.inj hb ▸ hr
    | some held =>
      dsimp only at hb
      split at hb
      · exact Option.some.inj hb ▸ hr
      · exact hfound best hb

/-- Once held, `row` is not replaced. -/
theorem betterDevice_held (hid : row.deviceID ≠ []) (hstate : row.state ≠ .revoked) :
    betterDevice v token (some row) r = some row := by
  unfold betterDevice
  split
  · rfl
  · next hmine =>
    push Not at hmine
    dsimp only
    rcases hr hmine.1 hmine.2 with rfl | hrev
    · split <;> rfl
    · rw [if_neg]
      rintro (hnil | ⟨hr, _⟩ | ⟨heq, _⟩)
      · exact hid hnil
      · exact hstate hr
      · exact hstate (heq.trans hrev)

end

/-- If `row` is the token's only row that is not revoked, the loop ends on it: anything held
    before gives way to it. -/
theorem foldl_betterDevice (hid : row.deviceID ≠ []) (hv : row.vaultID = v)
    (ht : row.tokenDeviceID = token) (hstate : row.state ≠ .revoked) {rows : List Device}
    (hrows : ∀ r ∈ rows, r.vaultID = v → r.tokenDeviceID = token → r = row ∨ r.state = .revoked)
    (hmem : row ∈ rows) : rows.foldl (betterDevice v token) none = some row := by
  obtain ⟨front, back, rfl⟩ := List.append_of_mem hmem
  have hfront := List.foldlRecOn (motive := fun found => ∀ best, found = some best →
    best = row ∨ best.state = .revoked) front (betterDevice v token) (b := none) (by simp)
    fun found hfound r hr => betterDevice_yields (hrows r (by simp [hr])) hfound
  have hmet : betterDevice v token (front.foldl (betterDevice v token) none) row = some row := by
    unfold betterDevice
    rw [if_neg (by simp [hv, ht])]
    split
    · rfl
    · next best hbest =>
      rcases hfront best hbest with rfl | hrev
      · split <;> rfl
      · rw [if_pos (Or.inr (Or.inl ⟨hrev, hstate⟩))]
  rw [List.foldl_append, List.foldl_cons, hmet]
  exact List.foldlRecOn (motive := (· = some row)) back _ rfl fun found hfound r hr =>
    hfound ▸ betterDevice_held (hrows r (by simp [hr])) hid hstate

theorem deviceByToken_of (wf : WF s) (hL : s.ledger v = some L)
    (hr : L.device row.deviceID = some row) (hid : row.deviceID ≠ []) (hstate : row.state ≠ .revoked)
    (hunique : ∀ d other, L.device d = some other → other.tokenDeviceID = row.tokenDeviceID →
      d ≠ row.deviceID → other.state = .revoked) :
    s.deviceByToken v row.tokenDeviceID = .ok row := by
  have hv := (wf.device_row hL hr).1
  have hfold : s.devices.values.foldl (betterDevice v row.tokenDeviceID) none = some row := by
    refine foldl_betterDevice hid hv rfl hstate (fun r hm hrv hrt => ?_) ((wf.mem_devices hL).mpr hr).1
    have hrow := (wf.mem_devices hL).mp ⟨hm, hrv⟩
    by_cases hd : r.deviceID = row.deviceID
    · rw [hd, hr] at hrow
      exact Or.inl (Option.some.inj hrow).symm
    · exact Or.inr (hunique _ r hrow hrt hd)
  unfold deviceByToken
  rw [hfold]
  simp [hid]

theorem pairingByToken_ok (wf : WF s) (hL : s.ledger v = some L) {row : Pairing}
    (h : s.pairingByToken v token = .ok row) :
    L.pairing row.deviceID = some row ∧ row.tokenDeviceID = token := by
  unfold pairingByToken at h
  cases hf : s.pairings.values.find? (fun p => p.vaultID = v ∧ p.tokenDeviceID = token) with
  | none => simp only [hf] at h; cases h
  | some found =>
    simp only [hf] at h
    obtain rfl := Except.ok.inj h
    have hrow := List.find?_some hf
    simp only [decide_eq_true_eq] at hrow
    exact ⟨(wf.mem_pairings hL).mp ⟨List.mem_of_find?_eq_some hf, hrow.1⟩, hrow.2⟩

end State

namespace Service

variable {svc : Service} {caller : Caller} {request : SignedRequest} {actor : Actor}
open State

/-- Who an actor can be: a stored device of the token, or the token's pairing. -/
structure ActsAs (caller : Caller) (L : Ledger) (actor : Actor) : Prop where
  vault : L.vault = actor.vault
  owner : actor.vault.ownerKey = caller.ownerKey
  complete : ¬caller.incomplete
  device : actor.pairing = none →
    L.device actor.device.deviceID = some actor.device ∧
      actor.device.tokenDeviceID = caller.tokenDeviceID
  pairing : ∀ pairing, actor.pairing = some pairing →
    L.pairing pairing.deviceID = some pairing ∧ pairing.tokenDeviceID = caller.tokenDeviceID ∧
      actor.device = pendingDevice actor.vault pairing

theorem pairingActor_ok {vault : Vault} {revoked : Option Device}
    (h : svc.pairingActor vault revoked caller tx = .ok actor tx') :
    tx'.data = tx.data ∧ tx'.spent = tx.spent ∧ tx.ticks ≤ tx'.ticks ∧ actor.vault = vault ∧
    ((actor.pairing = none ∧ revoked = some actor.device) ∨
      ∃ pairing, actor.pairing = some pairing ∧
        tx.data.pairingByToken vault.id caller.tokenDeviceID = .ok pairing ∧
        actor.device = pendingDevice vault pairing ∧
        svc.clock tx.ticks < pairing.expiresAt ∧ tx'.ticks = tx.ticks + 1) := by
  simp only [pairingActor, bind_ok] at h
  obtain ⟨x, _, hfind, h⟩ := h
  obtain ⟨rfl, hsome, _⟩ := find_ok hfind
  cases x with
  | none =>
    cases revoked with
    | none => exact (throw_ok.mp h).elim
    | some device =>
      obtain ⟨rfl, rfl⟩ := pure_ok.mp h
      exact ⟨rfl, rfl, le_refl _, rfl, Or.inl ⟨rfl, rfl⟩⟩
  | some pairing =>
    simp only [bind_ok, now_ok, refuse_ok, pure_ok, not_not] at h
    obtain ⟨_, _, ⟨rfl, rfl⟩, _, _, ⟨hlive, rfl⟩, rfl, rfl⟩ := h
    exact ⟨rfl, rfl, Nat.le_succ _, rfl, Or.inr ⟨pairing, rfl, hsome _ rfl, rfl, hlive, rfl⟩⟩

/-- Who acts, and that a pairing acts only before it expires. -/
theorem actorFor_ok (wf : WF tx.data) (h : svc.actorFor caller tx = .ok actor tx') :
    tx'.data = tx.data ∧ tx'.spent = tx.spent ∧ tx.ticks ≤ tx'.ticks ∧
      (∀ pairing, actor.pairing = some pairing →
        svc.clock tx.ticks < pairing.expiresAt ∧ tx'.ticks = tx.ticks + 1) ∧
      ∃ L, tx.data.ledger actor.vault.id = some L ∧ ActsAs caller L actor := by
  simp only [actorFor, bind_ok, refuse_ok] at h
  obtain ⟨_, _, ⟨hcomplete, rfl⟩, vault, _, hvault, x, _, hfind, h⟩ := h
  obtain ⟨rfl, hfound⟩ := vaultOf_ok hvault
  obtain ⟨rfl, hsome, _⟩ := find_ok hfind
  obtain ⟨howner, L, hL, hLv⟩ := vaultByOwner_ok wf hfound
  -- the device the token's row names, revoked or not
  have hdevice : ∀ device, x = some device → L.device device.deviceID = some device ∧
      device.tokenDeviceID = caller.tokenDeviceID :=
    fun device hx => deviceByToken_ok wf hL (hsome device hx)
  have hpairing : ∀ revoked, (∀ device, revoked = some device → x = some device) →
      svc.pairingActor vault revoked caller tx = .ok actor tx' →
      tx'.data = tx.data ∧ tx'.spent = tx.spent ∧ tx.ticks ≤ tx'.ticks ∧
        (∀ pairing, actor.pairing = some pairing →
          svc.clock tx.ticks < pairing.expiresAt ∧ tx'.ticks = tx.ticks + 1) ∧
        ∃ L, tx.data.ledger actor.vault.id = some L ∧ ActsAs caller L actor := by
    intro revoked hrev hp
    obtain ⟨hdata, hspent, hticks, hav, hcase⟩ := pairingActor_ok hp
    subst hav
    rcases hcase with ⟨hnone, hr⟩ | ⟨p, hp, hfound, hdev, hlive⟩
    · exact ⟨hdata, hspent, hticks, by simp [hnone], L, hL, hLv, howner, hcomplete,
        fun _ => hdevice _ (hrev _ hr), by simp [hnone]⟩
    · obtain ⟨h₁, h₂⟩ := pairingByToken_ok wf hL hfound
      refine ⟨hdata, hspent, hticks, fun q hq => ?_, L, hL, hLv, howner, hcomplete, by simp [hp],
        fun q hq => ?_⟩
      all_goals obtain rfl := Option.some.inj (hp.symm.trans hq)
      · exact hlive
      · exact ⟨h₁, h₂, hdev⟩
  cases x with
  | none => exact hpairing none (fun _ hx => by cases hx) h
  | some device =>
    simp only at h
    by_cases hstate : device.state ≠ .revoked
    · rw [if_pos hstate] at h
      obtain ⟨rfl, rfl⟩ := pure_ok.mp h
      exact ⟨rfl, rfl, le_refl _, by simp, L, hL, hLv, howner, hcomplete, fun _ => hdevice device rfl,
        by simp⟩
    · rw [if_neg hstate] at h
      exact hpairing (some device) (fun _ hx => hx) h

variable {pairing : Pairing} {scope : Bytes}

/-- **A device acts for its token**: with the owner's key, its own token's device
    id and any token, the caller is the stored device. -/
theorem actorFor_device {v : Bytes} {L : Ledger} (wf : WF tx.data)
    (hL : tx.data.ledger v = some L) {row : Device} (hr : L.device row.deviceID = some row)
    (hid : row.deviceID ≠ []) (hstate : row.state ≠ .revoked)
    (hunique : ∀ d other, L.device d = some other → other.tokenDeviceID = row.tokenDeviceID →
      d ≠ row.deviceID → other.state = .revoked)
    (hcomplete : ¬caller.incomplete) (howner : caller.ownerKey = L.vault.ownerKey)
    (htoken : caller.tokenDeviceID = row.tokenDeviceID) :
    svc.actorFor caller tx = .ok ⟨L.vault, row, none⟩ tx := by
  have hvault : tx.data.vaultByOwner caller.ownerKey = .ok L.vault := by
    rw [howner]; exact vaultByOwner_of wf hL
  have hdevice : tx.data.deviceByToken L.vault.id caller.tokenDeviceID = .ok row := by
    rw [wf.ledger_id hL, htoken]
    exact deviceByToken_of wf hL hr hid hstate hunique
  have hvaultOf : vaultOf caller.ownerKey tx = .ok L.vault tx := by
    unfold vaultOf
    rw [bind_run (find_run hvault)]
    rfl
  unfold actorFor
  rw [bind_run (refuse_run hcomplete), bind_run hvaultOf, bind_run (find_run hdevice)]
  simp only [if_pos hstate]
  rfl

/-! The request's signature and nonce. -/

def signatureOf (caller : Caller) (request : SignedRequest) : RequestSignature :=
  ⟨request.method, request.target, request.body, caller.token, request.timestamp, request.nonce⟩

structure Verified (svc : Service) (scope key : Bytes) (caller : Caller) (request : SignedRequest)
    (tx tx' : Tx) : Prop where
  signed : (signatureOf caller request).verify svc.crypto key request.signature
    (unixSeconds (svc.clock tx.ticks)).toNat = .ok ()
  ticks : tx'.ticks = tx.ticks + 3
  spent : tx'.spent = some ⟨scope, request.nonce, svc.clock (tx.ticks + 2),
    svc.clock (tx.ticks + 1) + requestNonceRetention * second⟩
  fresh : ∀ until_, tx.data.nonces.lookup (Syncsvc.key [scope, request.nonce]) = some until_ →
    until_ ≤ svc.clock (tx.ticks + 2)
  data : tx'.data = { tx.data with
    nonces := tx.data.nonces.insert (Syncsvc.key [scope, request.nonce])
      (svc.clock (tx.ticks + 1) + requestNonceRetention * second) }

theorem recordNonce_fresh {s s' : State} {nonce : Bytes} {now expires : Time}
    (h : s.recordNonce scope nonce now expires = (true, s')) :
    (∀ until_, s.nonces.lookup (key [scope, nonce]) = some until_ → until_ ≤ now) ∧
      s' = { s with nonces := s.nonces.insert (key [scope, nonce]) expires } := by
  unfold State.recordNonce at h
  cases hl : s.nonces.lookup (key [scope, nonce]) with
  | none =>
    simp only [hl, Prod.mk.injEq, true_and] at h
    exact ⟨fun _ hu => (by cases hu), h.symm⟩
  | some until_ =>
    simp only [hl] at h
    split at h
    · simp at h
    · next hlt =>
      simp only [Prod.mk.injEq, true_and] at h
      refine ⟨fun x hx => ?_, h.symm⟩
      obtain rfl := Option.some.inj hx
      exact not_lt.mp hlt

theorem verifyRequest_ok {key : Bytes}
    (h : svc.verifyRequest scope key caller request tx = .ok u tx') :
    Verified svc scope key caller request tx tx' := by
  simp only [verifyRequest, recordNonce, bind_ok, unix_ok, now_ok, refuse_ok, get_ok, set_ok,
    pure_ok] at h
  obtain ⟨_, _, ⟨rfl, rfl⟩, _, _, ⟨hsigned, rfl⟩, _, _, ⟨rfl, rfl⟩, _, _, ⟨rfl, rfl⟩, _, _,
    ⟨_, _, ⟨rfl, rfl⟩, _, _, rfl, rfl, rfl⟩, hfresh, rfl⟩ := h
  simp only [Bool.not_eq_true, Bool.not_eq_false] at hsigned hfresh
  obtain ⟨_, hok⟩ := failed_eq_false.mp hsigned
  obtain ⟨hlook, hdata⟩ := recordNonce_fresh (Prod.ext hfresh rfl)
  exact ⟨hok, rfl, by simp only [hfresh, if_true], hlook, hdata⟩

theorem Verified.ledger {key : Bytes} (h : Verified svc scope key caller request tx tx')
    (wf : WF tx.data) : WF tx'.data ∧ tx'.data.ledger = tx.data.ledger := by
  rw [h.data]
  exact ⟨wf.nonces _, ledger_nonces _⟩

/-- A signed actor is the actor of the token, and its own key signed the request. -/
theorem signedActor_verified (h : svc.signedActor caller request tx = .ok actor tx') :
    ∃ tx₁, svc.actorFor caller tx = .ok actor tx₁ ∧
      Verified svc (deviceScope actor.vault.id actor.device.deviceID) actor.device.signingKey caller
        request tx₁ tx' := by
  simp only [signedActor, bind_ok, pure_ok] at h
  obtain ⟨actor, tx₁, hactor, _, _, hverify, rfl, rfl⟩ := h
  exact ⟨tx₁, hactor, verifyRequest_ok hverify⟩

/-- A signed actor: who it is, and that only the nonce table changed. -/
theorem signedActor_ok (wf : WF tx.data) (h : svc.signedActor caller request tx = .ok actor tx') :
    WF tx'.data ∧ tx'.data.ledger = tx.data.ledger ∧
      ∃ L, tx'.data.ledger actor.vault.id = some L ∧ ActsAs caller L actor := by
  obtain ⟨tx₁, hactor, hverified⟩ := signedActor_verified h
  obtain ⟨hdata, _, _, _, L, hL, has⟩ := actorFor_ok wf hactor
  obtain ⟨hwf, hledger⟩ := hverified.ledger (by rw [hdata]; exact wf)
  rw [hdata] at hledger
  exact ⟨hwf, hledger, L, by rw [hledger]; exact hL, has⟩

theorem requireApproved_ok (h : requireApproved actor = .ok u) :
    actor.pairing = none ∧ actor.device.state = .approved := by
  simpa [requireApproved, check_ok] using h

theorem requireActivated_ok (h : requireActivated actor = .ok u) :
    actor.pairing = none ∧ actor.device.state = .approved ∧
      actor.device.activatedEpoch = actor.vault.epoch := by
  simp only [requireActivated, except_bind_ok, check_ok, not_not] at h
  obtain ⟨_, happroved, hepoch⟩ := h
  obtain ⟨h₁, h₂⟩ := requireApproved_ok happroved
  exact ⟨h₁, h₂, hepoch⟩

theorem requirePairing_ok {want : PairingState} (h : svc.requirePairing pairing want tx = .ok u tx') :
    pairing.state = want ∧ svc.clock tx.ticks < pairing.expiresAt ∧
      { tx with ticks := tx.ticks + 1 } = tx' := by
  simp only [requirePairing, bind_ok, refuse_ok, now_ok, not_not] at h
  obtain ⟨_, _, ⟨hstate, rfl⟩, _, _, ⟨rfl, rfl⟩, hlive, rfl⟩ := h
  exact ⟨hstate, hlive, rfl⟩

theorem extendList_ok {crypto : Crypto} {list list' : DeviceList} {entry : DeviceListEntry} :
    extendList crypto list entry = .ok list' ↔
      DeviceList.extend crypto entry list = .ok () list' := by
  unfold extendList
  cases DeviceList.extend crypto entry list <;> simp

theorem extendStored_ok {v : Bytes} {entry : DeviceListEntry} {list' : DeviceList}
    (h : svc.extendStored v entry tx = .ok list' tx') :
    tx = tx' ∧ ∃ list, loadList svc.crypto tx.data v = .ok list ∧
      DeviceList.extend svc.crypto entry list = .ok () list' := by
  simp only [extendStored, bind_ok, query_ok, lift_ok, extendList_ok] at h
  obtain ⟨list, _, ⟨hload, rfl⟩, hext, rfl⟩ := h
  exact ⟨rfl, list, hload, hext⟩

end Service

end Sesame.Syncsvc
