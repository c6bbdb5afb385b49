import SesameServer.Sync.Demo

/- What a signed request spends.

   Every signed operation has one point of no return: the nonce of its request is
   recorded. Up to there it only reads; afterwards it writes, but never to the
   nonce table, except that `BeginPairing` purges what has expired. So an
   operation that succeeded has spent its nonce, and one that failed has spent it
   or has changed nothing at all.

   1. `Reads`, `Quiet` — what an operation does before the point and after it.
   2. `run_spends` — every signed operation, with the scope its nonce is spent in.
   3. `failed_operation_rolls_back` — what an operation that fails leaves behind. -/
namespace Sesame.Syncsvc
open Syncproto Outcome State Service

/-! Before the nonce is recorded, and after. -/

structure Reads (tx tx' : Tx) : Prop where
  data : tx'.data = tx.data
  spent : tx'.spent = tx.spent
  ticks : tx.ticks ≤ tx'.ticks

/-- No nonce was recorded, and none was dropped that had not expired by a reading
    of the clock made in between. -/
structure Quiet (svc : Service) (tx tx' : Tx) : Prop where
  spent : tx'.spent = tx.spent
  ticks : tx.ticks ≤ tx'.ticks
  nonces : ∀ id until_, tx.data.nonces.lookup id = some until_ →
    tx'.data.nonces.lookup id = some until_ ∨
      ∃ t, tx.ticks ≤ t ∧ t < tx'.ticks ∧ until_ ≤ svc.clock t

/-- What reading the store and the clock does not break. -/
structure Frame (R : Tx → Tx → Prop) : Prop where
  refl : ∀ tx, R tx tx
  trans : ∀ {a b c}, R a b → R b c → R a c
  tick : ∀ tx, R tx { tx with ticks := tx.ticks + 1 }

theorem reads_frame : Frame Reads where
  refl _ := ⟨rfl, rfl, Nat.le_refl _⟩
  trans h h' := ⟨h'.data.trans h.data, h'.spent.trans h.spent, h.ticks.trans h'.ticks⟩
  tick _ := ⟨rfl, rfl, Nat.le_succ _⟩

theorem Quiet.of_nonces {svc : Service} {tx tx' : Tx} (hspent : tx'.spent = tx.spent)
    (hticks : tx.ticks ≤ tx'.ticks) (h : tx'.data.nonces = tx.data.nonces) : Quiet svc tx tx' :=
  ⟨hspent, hticks, fun id u hu => Or.inl (by rw [h]; exact hu)⟩

theorem quiet_frame (svc : Service) : Frame (Quiet svc) where
  refl _ := .of_nonces rfl (Nat.le_refl _) rfl
  tick _ := .of_nonces rfl (Nat.le_succ _) rfl
  trans h h' := by
    refine ⟨h'.spent.trans h.spent, h.ticks.trans h'.ticks, fun id u hu => ?_⟩
    rcases h.nonces id u hu with hu | ⟨t, h₁, h₂, hexpired⟩
    · rcases h'.nonces id u hu with hu | ⟨t, h₁, h₂, hexpired⟩
      · exact Or.inl hu
      · exact Or.inr ⟨t, h.ticks.trans h₁, h₂, hexpired⟩
    · exact Or.inr ⟨t, h₁, h₂.trans_le h'.ticks, hexpired⟩

section Frame

variable {α β : Type} {R : Tx → Tx → Prop} {svc : Service}

namespace Frame

section
variable (F : Frame R)
include F

theorem bind {x : TxM α} {f : α → TxM β} (hx : Keeps R x)
    (hf : ∀ a, Keeps R (f a)) : Keeps R (x >>= f) := Keeps.bind_keeps (R := R) F.trans hx hf

theorem bind_fails {x : TxM α} {f : α → TxM β} (hx : Keeps R x)
    (hf : ∀ a, Fails R (f a)) : Fails R (x >>= f) := Fails.bind_fails (R := R) F.trans hx hf

theorem pure (a : α) : Keeps R (Pure.pure a : TxM α) := Keeps.pure_keeps F.refl a

theorem throw (e : Err) : Keeps R (throwThe Err e : TxM α) :=
  Keeps.throw_keeps F.refl e

theorem refuse (c : Prop) [Decidable c] (e : Err) :
    Keeps R (Outcome.refuse c e : TxM Unit) := Keeps.refuse_keeps F.refl c e

theorem lift (r : Except Err α) : Keeps R (Outcome.lift r : TxM α) :=
  Keeps.lift_keeps F.refl r

theorem onlyIf {c : Prop} [Decidable c] {x : TxM Unit} (hx : Keeps R x) :
    Keeps R (Outcome.onlyIf c x) := Keeps.onlyIf_keeps F.refl hx

theorem forSome {o : Option α} {f : α → TxM Unit} (hf : ∀ a, Keeps R (f a)) :
    Keeps R (Outcome.forSome o f) := Keeps.forSome_keeps F.refl hf

theorem query (f : State → Except Err α) : Keeps R (Syncsvc.query f) :=
  F.bind (Keeps.get_keeps F.refl) fun _ => F.lift _

theorem find (f : State → Except Err α) : Keeps R (Syncsvc.find f) := by
  refine F.bind (Keeps.get_keeps F.refl) fun tx => ?_
  cases f tx.data with
  | ok a => exact F.pure _
  | error e =>
    by_cases h : e.has .notFound = true
    · simp only [h, if_true]
      exact F.pure _
    · simp only [h, if_false, Bool.false_eq_true]
      exact F.throw _

theorem now : Keeps R svc.now := by
  refine fun tx => ⟨fun t tx' h => ?_, fun e tx' h => ?_⟩
  · obtain ⟨_, rfl⟩ := now_ok.mp h
    exact F.tick tx
  · have hok : svc.now tx = .ok (svc.clock tx.ticks) { tx with ticks := tx.ticks + 1 } := rfl
    rw [hok] at h
    cases h

theorem unix : Keeps R svc.unix := F.bind F.now fun _ => F.pure _

theorem vaultOf (owner : Bytes) : Keeps R (Service.vaultOf owner) := by
  refine F.bind (F.find _) fun found => ?_
  cases found with
  | none => exact F.throw _
  | some vault => exact F.pure _

theorem actorFor (caller : Caller) : Keeps R (svc.actorFor caller) := by
  have hpairing : ∀ vault revoked, Keeps R (svc.pairingActor vault revoked caller) := by
    intro vault revoked
    refine F.bind (F.find _) fun found => ?_
    cases found with
    | none =>
      cases revoked with
      | none => exact F.throw _
      | some device => exact F.pure _
    | some pairing => exact F.bind F.now fun _ => F.bind (F.refuse _ _) fun _ => F.pure _
  refine F.bind (F.refuse _ _) fun _ => F.bind (F.vaultOf _) fun vault => F.bind (F.find _)
    fun found => ?_
  cases found with
  | none => exact hpairing _ _
  | some device =>
    simp only
    split
    · exact F.pure _
    · exact hpairing _ _

end

end Frame

/-! Writing elsewhere than in the nonce table. -/

namespace Quiet

theorem update {f : State → Except Err State}
    (h : ∀ s s', f s = .ok s' → s'.nonces = s.nonces) : Keeps (Quiet svc) (Syncsvc.update f) := by
  refine fun tx => ⟨fun u tx' hu => ?_, fun e tx' he => ?_⟩
  · obtain ⟨data, hdata, rfl⟩ := update_ok.mp hu
    exact .of_nonces rfl (Nat.le_refl _) (h _ _ hdata)
  · simp only [Syncsvc.update, bind_error, get_error, get_ok, lift_error, lift_ok, set_error,
      false_or, and_false, exists_false, or_false] at he
    obtain ⟨_, _, ⟨rfl, rfl⟩, _, rfl⟩ := he
    exact (quiet_frame svc).refl _

theorem write {f : State → State} (h : ∀ s, (f s).nonces = s.nonces) :
    Keeps (Quiet svc) (Syncsvc.write f) := by
  refine fun tx => ⟨fun u tx' hu => ?_, fun e tx' he => (modify_error.mp he).elim⟩
  obtain rfl := write_ok.mp hu
  exact .of_nonces rfl (Nat.le_refl _) (h _)

/-- A purge at the time just read drops only what has expired by then. -/
theorem purge {k : Time → TxM α} (hk : ∀ t, Keeps (Quiet svc) (k t)) :
    Keeps (Quiet svc) (do let t ← svc.now; Syncsvc.write (·.purgeExpired t); k t) := by
  have hdrop : ∀ tx : Tx, Quiet svc tx { tx with
      data := tx.data.purgeExpired (svc.clock tx.ticks), ticks := tx.ticks + 1 } := by
    refine fun tx => ⟨rfl, Nat.le_succ _, fun id u hu => ?_⟩
    simp only [purgeExpired, Table.lookup_deleteWhere, hu]
    by_cases hlive : svc.clock tx.ticks < u
    · exact Or.inl (by simp [Option.filter, hlive])
    · exact Or.inr ⟨tx.ticks, Nat.le_refl _, Nat.lt_succ_self _, not_lt.mp hlive⟩
  have hrun : ∀ tx, (do let t ← svc.now; Syncsvc.write (·.purgeExpired t); k t : TxM α) tx =
      k (svc.clock tx.ticks) { tx with
        data := tx.data.purgeExpired (svc.clock tx.ticks), ticks := tx.ticks + 1 } :=
    fun _ => rfl
  refine fun tx => ⟨fun a tx' h => ?_, fun e tx' h => ?_⟩ <;> rw [hrun] at h
  · exact (quiet_frame svc).trans (hdrop tx) ((hk _ _).1 a tx' h)
  · exact (quiet_frame svc).trans (hdrop tx) ((hk _ _).2 e tx' h)

end Quiet

end Frame

/-! The store's other methods leave the nonce table alone. -/

namespace State

variable {s s' : State}

theorem putDevice_nonces {row : Device} (h : s.putDevice row = .ok s') : s'.nonces = s.nonces := by
  unfold putDevice at h
  split at h <;> cases h
  rfl

theorem insertVault_nonces {vault : Vault} (h : s.insertVault vault = .ok s') :
    s'.nonces = s.nonces := by
  unfold insertVault at h
  split at h
  · cases h
  · split at h <;> cases h
    rfl

theorem updateVault_nonces {vault : Vault} (h : s.updateVault vault = .ok s') :
    s'.nonces = s.nonces := by
  unfold updateVault at h
  split at h <;> cases h
  rfl

theorem appendDeviceListEntry_nonces {entry : DeviceListEntry}
    (h : s.appendDeviceListEntry entry = .ok s') : s'.nonces = s.nonces := by
  unfold appendDeviceListEntry at h
  split at h <;> cases h
  rfl

theorem insertHeader_nonces {stored : StoredHeader} (h : s.insertHeader stored = .ok s') :
    s'.nonces = s.nonces := by
  simp only [insertHeader] at h
  split at h <;> cases h
  rfl

theorem pruneHeaders_nonces (s : State) (v : Bytes) (before : Nat) :
    (s.pruneHeaders v before).nonces = s.nonces := by
  unfold pruneHeaders
  split <;> rfl

theorem deleteCiphertext_nonces (s : State) (v : Bytes) (r : Nat) :
    (s.deleteCiphertext v r).nonces = s.nonces := by
  unfold deleteCiphertext
  split <;> rfl

theorem deleteCiphertextsBefore_nonces (s : State) (v : Bytes) (r : Nat) :
    (s.deleteCiphertextsBefore v r).nonces = s.nonces := by
  unfold deleteCiphertextsBefore
  split <;> rfl

end State

/-! The request of an operation. -/

/-- The operation is a signed one whose nonce is spent in the owner's scope. -/
def Op.byOwner : Op → Bool
  | .createVault _ | .beginPairing _ => true
  | _ => false

/-- The scope in which the nonce of a call is spent when it is made at `tx`. -/
def Service.ScopeOf (svc : Service) (call : Call) (tx : Tx) (scope : Bytes) : Prop :=
  if call.op.byOwner = true then scope = ownerScope call.caller.ownerKey
  else ∃ actor tx', svc.actorFor call.caller tx = .ok actor tx' ∧
    scope = deviceScope actor.vault.id actor.device.deviceID

/-- The nonce of the request was spent, and nothing else was done to nonces but
    dropping expired ones afterwards. -/
def Spends (svc : Service) (caller : Caller) (request : SignedRequest) (scope : Bytes)
    (tx tx' : Tx) : Prop :=
  ∃ key tx₁ tx₂, Reads tx tx₁ ∧ Verified svc scope key caller request tx₁ tx₂ ∧ Quiet svc tx₂ tx'

/-- The nonce of the call was spent in the call's scope. -/
def SpendsFor (svc : Service) (call : Call) (tx tx' : Tx) : Prop :=
  ∃ scope, svc.ScopeOf call tx scope ∧ Spends svc call.caller call.request scope tx tx'

variable {svc : Service} {caller : Caller} {request : SignedRequest} {scope : Bytes}
  {tx tx₁ tx₂ tx' : Tx}

theorem Service.ScopeOf.unique {call : Call} {scope' : Bytes} (h : svc.ScopeOf call tx scope)
    (h' : svc.ScopeOf call tx scope') : scope = scope' := by
  unfold ScopeOf at h h'
  split at h
  · next howner =>
    rw [if_pos howner] at h'
    rw [h, h']
  · next howner =>
    rw [if_neg howner] at h'
    obtain ⟨actor, _, hactor, rfl⟩ := h
    obtain ⟨actor', _, hactor', rfl⟩ := h'
    rw [hactor] at hactor'
    rw [(EStateM.Result.ok.inj hactor').1]

theorem Spends.reads (hread : Reads tx tx₁) (h : Spends svc caller request scope tx₁ tx') :
    Spends svc caller request scope tx tx' := by
  obtain ⟨key, a, b, hread', hverified, hquiet⟩ := h
  exact ⟨key, a, b, reads_frame.trans hread hread', hverified, hquiet⟩

theorem Spends.quiet (h : Spends svc caller request scope tx tx₁) (hquiet : Quiet svc tx₁ tx') :
    Spends svc caller request scope tx tx' := by
  obtain ⟨key, a, b, hread, hverified, hquiet'⟩ := h
  exact ⟨key, a, b, hread, hverified, (quiet_frame svc).trans hquiet' hquiet⟩

theorem SpendsFor.quiet {call : Call} (h : SpendsFor svc call tx tx₁)
    (hquiet : Quiet svc tx₁ tx') : SpendsFor svc call tx tx' := by
  obtain ⟨scope, hscope, hspends⟩ := h
  exact ⟨scope, hscope, hspends.quiet hquiet⟩

/-- Recording a nonce takes no other path than the store's method. -/
theorem recordNonce_run {nonce : Bytes} {now expires : Time} :
    Service.recordNonce scope nonce now expires tx =
      .ok (tx.data.recordNonce scope nonce now expires).1 { tx with
        data := (tx.data.recordNonce scope nonce now expires).2
        spent := if (tx.data.recordNonce scope nonce now expires).1 = true then
          some ⟨scope, nonce, now, expires⟩ else tx.spent } := rfl

theorem recordNonce_stale {s : State} {nonce : Bytes} {now expires : Time}
    (h : (s.recordNonce scope nonce now expires).1 = false) :
    (s.recordNonce scope nonce now expires).2 = s := by
  unfold State.recordNonce at h ⊢
  cases hl : s.nonces.lookup (key [scope, nonce]) with
  | none => simp [hl] at h
  | some until_ =>
    by_cases hlt : now < until_
    · simp [hlt]
    · simp [hl, hlt] at h

/-- A request that is not verified has changed nothing: a nonce that is not fresh is
    not recorded. -/
theorem verifyRequest_fails {key : Bytes} :
    Fails Reads (svc.verifyRequest scope key caller request) := by
  have F := reads_frame
  refine F.bind_fails F.unix fun _ => F.bind_fails (F.refuse _ _) fun _ =>
    F.bind_fails F.now fun _ => F.bind_fails F.now fun _ => ?_
  intro tx e tx' h
  rw [bind_run recordNonce_run] at h
  obtain ⟨hstale, _, rfl⟩ := refuse_error.mp h
  exact ⟨recordNonce_stale hstale, by simp only [hstale, Bool.false_eq_true, if_false],
    Nat.le_refl _⟩

theorem verifyRequest_spends {call : Call} (howner : call.op.byOwner = true) (key : Bytes) :
    Commits Reads (SpendsFor svc call) (svc.verifyRequest (ownerScope call.caller.ownerKey) key
      call.caller call.request) := by
  refine fun tx => ⟨fun _ tx' h => ?_, fun e tx' h => Or.inl (verifyRequest_fails tx e tx' h)⟩
  exact ⟨_, (if_pos howner).mpr rfl, key, tx, tx', reads_frame.refl tx, verifyRequest_ok h,
    (quiet_frame svc).refl tx'⟩

theorem signedActor_spends {call : Call} (hdevice : call.op.byOwner = false) :
    Commits Reads (SpendsFor svc call) (svc.signedActor call.caller call.request) := by
  have F := reads_frame
  refine fun tx => ⟨fun actor tx' h => ?_, fun e tx' h => ?_⟩
  · simp only [signedActor, bind_ok, pure_ok] at h
    obtain ⟨actor, tx₁, hactor, _, tx₂, hverify, rfl, rfl⟩ := h
    refine ⟨_, (if_neg (by simp [hdevice])).mpr ⟨actor, tx₁, hactor, rfl⟩, _, tx₁, tx₂,
      (F.actorFor call.caller tx).1 _ _ hactor, verifyRequest_ok hverify, (quiet_frame svc).refl _⟩
  · simp only [signedActor, bind_error, pure_error, and_false, exists_false, or_false] at h
    rcases h with h | ⟨actor, tx₁, hactor, h⟩
    · exact Or.inl ((F.actorFor call.caller tx).2 _ _ h)
    · exact Or.inl (F.trans ((F.actorFor call.caller tx).1 _ _ hactor)
        (verifyRequest_fails tx₁ e tx' h))

/-! Each operation. -/

section Operations

variable {α β : Type} {call : Call}

theorem SpendsFor.andThen {x : TxM α} {f : α → TxM β} (hx : Commits Reads (SpendsFor svc call) x)
    (hf : ∀ a, Keeps (Quiet svc) (f a)) : Commits Reads (SpendsFor svc call) (x >>= f) :=
  Commits.andThen (Q := Quiet svc) hx hf fun h h' => h.quiet h'

theorem SpendsFor.after (howner : call.op.byOwner = true) {x : TxM α} {f : α → TxM β}
    (hx : Keeps Reads x) (hf : ∀ a, Commits Reads (SpendsFor svc call) (f a)) :
    Commits Reads (SpendsFor svc call) (x >>= f) := by
  refine Commits.after (R := Reads) (S := SpendsFor svc call) hx hf reads_frame.trans ?_
  rintro a b c hread ⟨scope, hscope, hspends⟩
  -- the owner's scope does not depend on where it is asked for
  rw [ScopeOf, if_pos howner] at hscope
  exact ⟨scope, (if_pos howner).mpr hscope, hspends.reads hread⟩

theorem putPackages_quiet (actor : Actor) (entry : DeviceListEntry) (now : Time) :
    ∀ (packages : List KeyPackageV3) (expected : Finset Bytes),
      Keeps (Quiet svc) (svc.putPackages actor entry now packages expected)
  | [], _ => (quiet_frame svc).pure _
  | _ :: rest, _ => by
    have Q := quiet_frame svc
    exact Q.bind (Q.refuse _ _) fun _ => Q.bind (Q.refuse _ _) fun _ => Q.bind (Q.lift _) fun _ =>
      Q.bind (Quiet.write fun _ => rfl) fun _ => putPackages_quiet actor entry now rest _

theorem rekeyDevices_quiet (actor : Actor) (kind : EntryKind) (entry : DeviceListEntry) :
    ∀ devices : List Device, Keeps (Quiet svc) (rekeyDevices actor kind entry devices)
  | [] => (quiet_frame svc).pure _
  | _ :: rest =>
    (quiet_frame svc).bind ((quiet_frame svc).forSome fun _ =>
      Quiet.update fun _ _ h => putDevice_nonces h) fun _ => rekeyDevices_quiet actor kind entry rest

theorem deletePairings_quiet (v : Bytes) :
    ∀ pairings : List Pairing, Keeps (Quiet svc) (deletePairings v pairings)
  | [] => (quiet_frame svc).pure _
  | _ :: rest => (quiet_frame svc).bind (Quiet.write fun _ => rfl) fun _ => deletePairings_quiet v rest

theorem makeRoomLoop_quiet (vault : Vault) (incoming : Nat) :
    ∀ rounds stored, Keeps (Quiet svc) (svc.makeRoomLoop vault incoming rounds stored)
  | 0, _ => (quiet_frame svc).throw _
  | rounds + 1, stored => by
    have Q := quiet_frame svc
    unfold makeRoomLoop
    split
    · refine Q.bind (Q.find _) fun oldest => ?_
      cases oldest with
      | none => exact Q.throw _
      | some row =>
        exact Q.bind (Q.refuse _ _) fun _ =>
          Q.bind (Quiet.write fun s => deleteCiphertext_nonces s _ _) fun _ =>
          makeRoomLoop_quiet vault incoming rounds _
    · exact Q.pure _

/-- **Every signed operation spends its nonce, or fails having changed nothing.** -/
theorem run_spends : Commits Reads (SpendsFor svc call) (svc.run (.call call)) := by
  have F := reads_frame
  have Q := quiet_frame svc
  obtain ⟨caller, request, op⟩ := call
  cases op <;> dsimp only [run, createVault, beginPairing, answerPairing, confirmPairing, cancelPairing,
    approve, activate, remove, rotate, rekey, upgradeKey, upload, Service.putCheckpoint, reset, makeRoom,
    requirePairing, extendStored, Service.previousHeader, Service.unix]
  -- up to the request: a device signs, or the owner does after some checks
  all_goals first
    | refine SpendsFor.andThen (signedActor_spends rfl) fun _ => ?_
    | refine SpendsFor.andThen (SpendsFor.andThen (signedActor_spends rfl) fun _ => ?_) fun _ => Q.pure _
    | refine SpendsFor.after rfl (F.refuse _ _) fun _ => SpendsFor.after rfl (F.vaultOf _) fun _ =>
        SpendsFor.after rfl (F.refuse _ _) fun _ => SpendsFor.after rfl (F.lift _) fun _ =>
        SpendsFor.andThen (verifyRequest_spends rfl _) fun _ => ?_
    | refine SpendsFor.andThen (SpendsFor.after rfl (F.refuse _ _) fun _ =>
        SpendsFor.after rfl (F.find _) fun _ => SpendsFor.after rfl (F.refuse _ _) fun _ =>
        SpendsFor.after rfl (F.lift _) fun _ => SpendsFor.andThen (verifyRequest_spends rfl _)
          fun _ => ?_) fun _ => Q.pure _
  -- after it: no statement touches the nonces
  all_goals repeat' first
    | with_reducible first
      | exact Q.refuse _ _ | exact Q.lift _ | exact Q.query _ | exact Q.find _ | exact Q.now
      | exact Q.pure _ | refine Q.onlyIf ?_ | refine Q.forSome fun _ => ?_
      | exact putPackages_quiet _ _ _ _ _ | exact rekeyDevices_quiet _ _ _ _
      | exact deletePairings_quiet _ _ | exact makeRoomLoop_quiet _ _ _ _
      | exact Quiet.write fun s => deleteCiphertextsBefore_nonces s _ _
      | exact Quiet.write fun s => pruneHeaders_nonces s _ _
      | exact Quiet.update fun _ _ => putDevice_nonces
      | exact Quiet.update fun _ _ => insertVault_nonces
      | exact Quiet.update fun _ _ => updateVault_nonces
      | exact Quiet.update fun _ _ => appendDeviceListEntry_nonces
      | exact Quiet.update fun _ _ => insertHeader_nonces
      | refine Quiet.purge fun _ => ?_
      | refine Quiet.write ?_
      | refine Q.bind ?_ fun _ => ?_
    | exact Q.throw _ | exact fun _ => rfl | split

/-- The operations without a request record no nonce. -/
theorem adminReset_quiet (ownerKey : Bytes) : Keeps (Quiet svc) (svc.run (.adminReset ownerKey)) :=
  (quiet_frame svc).bind ((quiet_frame svc).query _) fun _ => Quiet.write fun _ => rfl

theorem maintain_quiet : Keeps (Quiet svc) (svc.run .maintain) := by
  have h : svc.run .maintain = (do let t ← svc.now; write (·.purgeExpired t); pure ()) := rfl
  rw [h]
  exact Quiet.purge fun _ => (quiet_frame svc).pure _

end Operations

/-! What a failed operation leaves. -/

/-- What the recovery does depends on whether the failed transaction spent a nonce. -/
theorem perform_error {x : TxM Unit} {data : State} {ticks : Nat} {e : Err}
    (h : (perform x data ticks).error = some e) : ∃ tx', x ⟨data, ticks, none⟩ = .error e tx' ∧
      (perform x data ticks).data = match tx'.spent with
        | some spent => (recoverNonce data spent).2
        | none => data := by
  simp only [perform, transact] at h ⊢
  cases hx : x ⟨data, ticks, none⟩ with
  | ok u tx' => simp [hx] at h
  | error e' tx' =>
    simp only [hx] at h ⊢
    cases hs : tx'.spent with
    | none | some spent =>
      simp only [hs, Option.some.injEq] at h
      exact ⟨tx', by rw [h], by simp only [hs]⟩

/-- **A failed operation rolls back.** It leaves the store as it was, except that
    the nonce of its own request may have been added or renewed, in the scope of
    that request. -/
theorem failed_operation_rolls_back {action : Action} {data : State} {ticks : Nat} {e : Err}
    (failed : (perform (svc.run action) data ticks).error = some e) :
    (perform (svc.run action) data ticks).data = data ∨
      ∃ call scope expires, action = .call call ∧ svc.ScopeOf call ⟨data, ticks, none⟩ scope ∧
        (perform (svc.run action) data ticks).data =
          { data with nonces := data.nonces.insert (key [scope, call.request.nonce]) expires } := by
  obtain ⟨tx', hrun, hdata⟩ := perform_error failed
  rw [hdata]
  cases action with
  | adminReset ownerKey =>
    rw [((adminReset_quiet ownerKey _).2 _ _ hrun).spent]
    exact Or.inl rfl
  | maintain =>
    rw [((maintain_quiet _).2 _ _ hrun).spent]
    exact Or.inl rfl
  | call call =>
    rcases (run_spends _).2 _ _ hrun with hread | ⟨scope, hscope, hspends⟩
    · rw [hread.spent]
      exact Or.inl rfl
    · obtain ⟨_, _, _, _, hverified, hafter⟩ := hspends
      rw [hafter.spent, hverified.spent]
      rcases recordNonce_data data scope call.request.nonce _ _ with hsame | hadded
      · exact Or.inl hsame
      · exact Or.inr ⟨call, scope, _, rfl, hscope, hadded⟩

namespace Demo

/-- The store in which device 1 has created the vault. -/
def createdState : State := (execAll (service (still 1000)) created start).2.data

/-- A reset that names a wrong epoch: it fails after its nonce was recorded. -/
def wrongReset : Action := .call (call 1 1000 2 (.reset 7))

theorem failed_operation_rolls_back_reset :
    (perform ((service (still 1000)).run wrongReset) createdState 0).error = some (.is .conflict) ∧
    (perform ((service (still 1000)).run wrongReset) createdState 0).data.vaults =
      createdState.vaults := by
  have herror : (perform ((service (still 1000)).run wrongReset) createdState 0).error =
      some (.is .conflict) := by decide +kernel
  refine ⟨herror, ?_⟩
  rcases failed_operation_rolls_back herror with hsame | ⟨_, _, _, _, _, hadded⟩
  · rw [hsame]
  · rw [hadded]

end Demo

end Sesame.Syncsvc
