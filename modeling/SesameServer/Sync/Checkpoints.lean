import SesameServer.Sync.Agreement
import SesameServer.Sync.Timeline

/- The checkpoints of a vault's devices.

   A device tells the service which heads it has seen. One operation stores such a row, and
   one removes it; the device it is about lives in another table and in the list.

   1. `putCheckpoint_ok` — what a stored checkpoint was checked against.
   2. `DeviceStep`, `Run.deviceStep` — what an accepted action does to one device's checkpoint.
   3. `Vouched` — every row is the checkpoint of an approved device, under its key.
   4. `checkpoints_advance` — and as long as the device is approved, its rows move forward. -/
namespace Sesame.Syncsvc
open Syncproto Outcome State Service DeviceList History

/-- The later checkpoint was observed later and is not behind. -/
def Before (earlier later : Checkpoint) : Prop :=
  earlier.observedAt < later.observedAt ∧ earlier.deviceListIndex ≤ later.deviceListIndex ∧
    earlier.headerRevision ≤ later.headerRevision

/-- It is within the skew of the clock's reading `t`, and was stored with the next reading. -/
def StoredCheckpoint.Near (svc : Service) (c : StoredCheckpoint) (t : Nat) : Prop :=
  c.observedAt ≤ (unixSeconds (svc.clock t)).toNat + requestTimestampSkew ∧
  (unixSeconds (svc.clock t)).toNat ≤ c.observedAt + requestTimestampSkew ∧
  c.acceptedAt = svc.clock (t + 1)

variable {svc : Service} {L L' : Ledger} {v d : Bytes} {caller : Caller} {request : SignedRequest}

theorem checkpoint_ledger {s : State} {c : StoredCheckpoint} (hL : s.ledger v = some L) :
    s.checkpoint v d = .ok c ↔ L.checkpoint d = some c := by
  rw [(ledger_some hL).2]
  simp only [State.checkpoint, ledgerOf]
  cases s.checkpoints.lookup (key [v, d]) <;> simp

/-- What a successful `PutCheckpoint` has checked and done. -/
structure Observes (svc : Service) (c : Checkpoint) (L : Ledger) (row : Device) (t : Nat)
    (tx tx' : Tx) : Prop where
  stored : tx.data.ledger c.vaultID = some L
  found : L.device c.deviceID = some row
  approved : row.state = .approved
  verified : c.verify svc.crypto row.signingKey = .ok ()
  later : ∀ earlier, L.checkpoint c.deviceID = some earlier → Before earlier.toCheckpoint c
  near : StoredCheckpoint.Near svc { c with acceptedAt := svc.clock (t + 1) } t
  effect : tx'.data.ledger = Function.update tx.data.ledger c.vaultID (some { L with
    checkpoint := Function.update L.checkpoint c.deviceID
      (some { c with acceptedAt := svc.clock (t + 1) }) })

theorem putCheckpoint_ok {tx tx' : Tx} {c : Checkpoint} {stored : StoredCheckpoint} (wf : WF tx.data)
    (h : svc.putCheckpoint caller request c tx = .ok stored tx') :
    ∃ L row t, Observes svc c L row t tx tx' := by
  simp only [Service.putCheckpoint, bind_ok, lift_ok, refuse_ok, orInvalid_ok, unix_ok, now_ok,
    write_ok, pure_ok] at h
  obtain ⟨actor, tx₁, hactor, _, _, ⟨hact, rfl⟩, _, _, ⟨hforeign, rfl⟩, _, _, ⟨hverified, rfl⟩, _,
    _, ⟨rfl, rfl⟩, _, _, ⟨hskew, rfl⟩, previous, _, hfind, _, _, ⟨hlater, rfl⟩, _, _, ⟨rfl, rfl⟩, _,
    _, rfl, _, rfl⟩ := h
  obtain ⟨L, device, own, rfl, hwf, hledger, hL, acts⟩ := signedActor_cases wf hactor
  obtain ⟨rfl, hsome, hnone⟩ := find_ok hfind
  push Not at hforeign hlater
  obtain ⟨hvault, hdevice⟩ := hforeign
  obtain ⟨hpairing, happroved, -⟩ := requireActivated_ok hact
  have hat := putCheckpoint_at hwf hL { c with acceptedAt := svc.clock (tx₁.ticks + 1) } hvault
  refine ⟨L, device, tx₁.ticks, ?_, ?_, happroved, hverified, fun earlier he => ?_, ?_, ?_⟩
  · rw [hvault, ← hledger]
    exact hL
  · rw [hdevice]
    exact acts.row hpairing
  · rw [hdevice] at he
    have hcheckpoint := (checkpoint_ledger hL).mpr he
    cases previous with
    | none =>
      obtain ⟨e, hmissing⟩ := hnone rfl
      cases hmissing.symm.trans hcheckpoint
    | some row =>
      cases (hsome row rfl).symm.trans hcheckpoint
      exact hlater earlier rfl
  · obtain ⟨hahead, hbehind⟩ := withinSkew_iff.mp (by simpa using hskew)
    exact ⟨hahead, hbehind, rfl⟩
  · rw [hvault, ← hledger]
    exact hat.ledger

/-! One device's checkpoint in a step. -/

/-- The checkpoint that an accepted action stores for a device. -/
def Action.stores (v d : Bytes) : Action → Option Checkpoint
  | .call ⟨_, _, .putCheckpoint c⟩ => if c.vaultID = v ∧ c.deviceID = d then some c else none
  | _ => none

/-- A device that is approved still is, with the same signing key. -/
def Stays (d : Bytes) (L L' : Ledger) : Prop :=
  ∀ row, L.device d = some row → row.state = .approved →
    ∃ row', L'.device d = some row' ∧ row'.state = .approved ∧ row'.signingKey = row.signingKey

theorem Stays.of_eq (h : L'.device d = L.device d) : Stays d L L' :=
  fun row hrow happroved => ⟨row, h.trans hrow, happroved, rfl⟩

theorem Stays.update {device : Bytes} {old new : Device}
    (h : L'.device = Function.update L.device device (some new)) (hold : L.device device = some old)
    (hstate : new.state = old.state) (hkey : new.signingKey = old.signingKey) : Stays d L L' := by
  intro row hrow happroved
  rw [h]
  by_cases hd : d = device
  · subst hd
    cases hold.symm.trans hrow
    exact ⟨new, Function.update_self _ _ _, hstate.trans happroved, hkey⟩
  · exact ⟨row, (Function.update_of_ne hd _ _).trans hrow, happroved, rfl⟩

/-- What an accepted action does to the checkpoint of device `d` in vault `v`. -/
inductive DeviceStep (svc : Service) (v d : Bytes) (action : Action) :
    Option Ledger → Option Ledger → Prop
  | kept {L L' : Ledger} (quiet : action.stores v d = none) (same : L'.checkpoint d = L.checkpoint d)
      (stays : Stays d L L') : DeviceStep svc v d action (some L) (some L')
  | stored {L L' : Ledger} {c : Checkpoint} {row : Device} {t : Nat} (shows : action.stores v d = some c)
      (found : L.device d = some row) (approved : row.state = .approved)
      (verified : c.verify svc.crypto row.signingKey = .ok ())
      (later : ∀ earlier, L.checkpoint d = some earlier → Before earlier.toCheckpoint c)
      (near : StoredCheckpoint.Near svc { c with acceptedAt := svc.clock (t + 1) } t)
      (device : L'.device = L.device)
      (new : L'.checkpoint d = some { c with acceptedAt := svc.clock (t + 1) }) :
      DeviceStep svc v d action (some L) (some L')
  | removed {L L' : Ledger} (quiet : action.stores v d = none) (empty : L'.checkpoint d = none)
      (gone : ∀ row, L'.device d = some row → row.state ≠ .approved) :
      DeviceStep svc v d action (some L) (some L')
  | opened {L' : Ledger} (quiet : action.stores v d = none) (empty : L'.checkpoint d = none) :
      DeviceStep svc v d action none (some L')
  | absent {x : Option Ledger} (quiet : action.stores v d = none) : DeviceStep svc v d action x none

theorem Action.stores_other {call : Call} (other : ∀ c, call.op ≠ .putCheckpoint c) :
    (Action.call call).stores v d = none := by
  obtain ⟨caller, request, op⟩ := call
  cases op with
  | putCheckpoint c => exact absurd rfl (other c)
  | _ => rfl

variable {action : Action} {events : List Event} {sys : Sys}

theorem Action.stores_none (h : action.vaultID ≠ some v) : action.stores v d = none := by
  cases action with
  | call call =>
    obtain ⟨caller, request, op⟩ := call
    cases op with
    | putCheckpoint c =>
      simp only [Action.stores]
      rw [if_neg fun hc => h (congrArg some hc.1)]
    | _ => rfl
  | _ => rfl

/-- A move that is not a checkpoint keeps the row, or removes the device with it. -/
theorem Move.deviceStep {call : Call} {list : DeviceList} (move : Move svc L call L')
    (ha : Agrees svc.crypto L list) (other : ∀ c, call.op ≠ .putCheckpoint c) :
    DeviceStep svc v d (.call call) (some L) (some L') := by
  cases move with
  | offered | answered | confirmed | cancelled | uploaded =>
    exact .kept rfl rfl (.of_eq rfl)
  | @checkpointed _ _ c => exact absurd rfl (other c)
  | activated acts approved =>
    exact .kept rfl rfl (.update rfl (acts.row (requireApproved_ok approved).1) rfl rfl)
  | upgraded acts appends =>
    exact .kept rfl rfl (.update rfl (acts.row (requireActivated_ok appends.activated).1) rfl rfl)
  | @approved _ _ entry _ _ _ _ _ _ acts appends =>
    -- the new device has no row yet
    obtain ⟨_, _, _, g⟩ := ha.grown appends
    have fresh := (g.member_add appends.kind).1
    refine .kept rfl rfl fun row hrow happroved => ⟨row, ?_, happroved, rfl⟩
    have hd : d ≠ entry.subjectDeviceID := by
      rintro rfl
      obtain ⟨m, hm, -⟩ := ha.row hrow
      cases hm.symm.trans fresh
    exact (Function.update_of_ne hd _ _).trans hrow
  | @rekeyed _ _ kind _ entry _ actor _ _ acts isOp appends =>
    by_cases hgone : kind = .remove ∧ d = entry.subjectDeviceID
    · refine .removed (Action.stores_other other) ?_ fun row' hrow' => ?_
      · simp only [if_pos hgone.1]
        rw [hgone.2, Function.update_self]
      · obtain ⟨row, hrow, rfl⟩ := Option.map_eq_some_iff.mp hrow'
        rw [(rekeyed_fields actor kind entry row).2.2.2.2.2, ha.ids d row hrow, if_pos hgone]
        decide
    · refine .kept (Action.stores_other other) ?_ fun row hrow happroved => ?_
      · dsimp only
        split
        · next hk => exact Function.update_of_ne (fun hd => hgone ⟨hk, hd⟩) _ _
        · rfl
      · refine ⟨Service.rekeyed actor kind entry row, ?_, ?_, (rekeyed_fields actor kind entry row).2.2.1⟩
        · dsimp only
          rw [hrow]
          rfl
        · rw [(rekeyed_fields actor kind entry row).2.2.2.2.2, ha.ids d row hrow, if_neg hgone]
          exact happroved

theorem Run.deviceStep {P : Sys → Action → Prop}
    {tx : Tx} (run : Run svc P events sys) (h : svc.run action ⟨sys.data, sys.ticks, none⟩ = .ok () tx)
    (v d : Bytes) : DeviceStep svc v d action (sys.data.ledger v) (tx.data.ledger v) := by
  have change := run.change h v
  by_cases hput : ∃ caller request c, action = .call ⟨caller, request, .putCheckpoint c⟩
  · obtain ⟨caller, request, c, rfl⟩ := hput
    obtain ⟨stored, _, hop, hpure⟩ := bind_ok.mp h
    obtain ⟨-, rfl⟩ := pure_ok.mp hpure
    obtain ⟨L, row, t, o⟩ := putCheckpoint_ok run.wf hop
    rw [o.effect]
    by_cases hv : v = c.vaultID
    · subst hv
      rw [Function.update_self, show sys.data.ledger c.vaultID = some L from o.stored]
      by_cases hd : d = c.deviceID
      · subst hd
        exact .stored (if_pos ⟨rfl, rfl⟩) o.found o.approved o.verified o.later o.near rfl
          (Function.update_self _ _ _)
      · exact .kept (if_neg fun hc => hd hc.2.symm) (Function.update_of_ne hd _ _) (.of_eq rfl)
    · rw [Function.update_of_ne hv]
      have quiet : (Action.call ⟨caller, request, .putCheckpoint c⟩).stores v d = none :=
        if_neg fun hc => hv hc.1.symm
      show DeviceStep svc v d _ (sys.data.ledger v) (sys.data.ledger v)
      cases sys.data.ledger v with
      | none => exact .absent quiet
      | some L => exact .kept quiet rfl (.of_eq rfl)
  have other : ∀ {call}, action = .call call → ∀ c, call.op ≠ .putCheckpoint c := by
    rintro ⟨caller, request, op⟩ haction c rfl
    exact hput ⟨caller, request, c, haction⟩
  have agrees := run.agrees.2 v
  generalize sys.data.ledger v = x at change agrees
  generalize tx.data.ledger v = y at change
  cases change with
  | same elsewhere =>
    cases x with
    | none => exact .absent (Action.stores_none elsewhere)
    | some L => exact .kept (Action.stores_none elsewhere) rfl (.of_eq rfl)
  | opened => exact .opened rfl rfl
  | expired elsewhere => exact .kept (Action.stores_none elsewhere) rfl (.of_eq rfl)
  | closed elsewhere => exact .absent (Action.stores_none elsewhere)
  | begun move =>
    cases move with
    | offered => exact .kept rfl rfl (.of_eq rfl)
    | rekeyed _ isOp => rcases isOp with ⟨-, hop⟩ | ⟨-, hop⟩ <;> cases hop
  | moved move =>
    obtain ⟨list, ha⟩ := agrees _ rfl
    exact move.deviceStep ha (other rfl)

/-! Rows. -/

/-- Every checkpoint is an approved device's, verifies under its key, and was near the clock. -/
def Vouched (svc : Service) (L : Ledger) : Prop :=
  ∀ d c, L.checkpoint d = some c → (∃ row, L.device d = some row ∧ row.state = .approved ∧
    c.verify svc.crypto row.signingKey = .ok ()) ∧ ∃ t, c.Near svc t

theorem Vouched.step {x : Option Ledger} (steps : ∀ d, DeviceStep svc v d action x (some L'))
    (h : ∀ L, x = some L → Vouched svc L) : Vouched svc L' := by
  intro d c hc
  have step := steps d
  generalize hy : some L' = y at step
  cases step with
  | absent => cases hy
  | kept quiet same stays =>
    cases hy
    obtain ⟨⟨row, hrow, happroved, hverified⟩, hnear⟩ := h _ rfl d c (same.symm.trans hc)
    obtain ⟨row', hrow', happroved', hkey⟩ := stays row hrow happroved
    exact ⟨⟨row', hrow', happroved', hkey.symm ▸ hverified⟩, hnear⟩
  | stored shows found approved verified later near device new =>
    cases hy
    cases new.symm.trans hc
    exact ⟨⟨_, device ▸ found, approved, verified⟩, _, near⟩
  | removed quiet empty | opened quiet empty =>
    cases hy
    cases empty.symm.trans hc

theorem Run.vouched (run : Run svc Any events sys) :
    ∀ v L, sys.data.ledger v = some L → Vouched svc L := by
  have := Run.traced (Q := fun _ book => ∀ v L, book v = some L → Vouched svc L) .start run.path
    (fun _ _ hL => by cases hL) (fun _ _ _ _ h => h) ?_
  · exact this
  · intro later sys' action tx run' hrun _ ih v L' hL'
    exact Vouched.step (fun d => hL' ▸ run'.deviceStep hrun v d) (ih v)

/-! Sequences. -/

/-- The checkpoint that a step stores for the device. -/
def Event.stores (v d : Bytes) : Event → Option Checkpoint
  | .ran action none _ => action.stores v d
  | _ => none

theorem Event.stores_none {shown : List Event} (h : ∀ event ∈ shown, event.accepted = false) :
    shown.filterMap (Event.stores v d) = [] := by
  rw [List.filterMap_eq_nil_iff]
  intro event he
  have := h event he
  cases event with
  | recovered => rfl
  | ran action error spent =>
    cases error with
    | none => cases this
    | some e => rfl

def Serves (v d : Bytes) (sys : Sys) : Prop :=
  sys.data.Stored v ∧ ∃ row, sys.data.device v d = .ok row ∧ row.state = .approved

theorem Serves.ledger (h : Serves v d sys) : ∃ L row, sys.data.ledger v = some L ∧
    L.device d = some row ∧ row.state = .approved := by
  obtain ⟨stored, row, hrow, happroved⟩ := h
  obtain ⟨vault, hvault⟩ := Option.isSome_iff_exists.mp stored
  have hL := ledger_of_lookup hvault
  exact ⟨_, row, hL, (device_ledger hL).mp hrow, happroved⟩

def State.latest (s : State) (v d : Bytes) : List Checkpoint :=
  match s.checkpoint v d with
  | .ok c => [c.toCheckpoint]
  | .error _ => []

/-- The checkpoints are in order, and the device's row is not behind any of them. -/
structure Ordered (v d : Bytes) (cs : List Checkpoint) (book : Book) : Prop where
  pairwise : cs.Pairwise Before
  last : ∀ c ∈ cs, ∃ L row, book v = some L ∧ L.checkpoint d = some row ∧
    (c = row.toCheckpoint ∨ Before c row.toCheckpoint)

theorem Before.trans {a b c : Checkpoint} (h : Before a b) (h' : Before b c) : Before a c :=
  ⟨h.1.trans h'.1, h.2.1.trans h'.2.1, h.2.2.trans h'.2.2⟩

theorem Ordered.step {cs : List Checkpoint} {book book' : Book}
    (h : Ordered v d cs book) (step : DeviceStep svc v d action (book v) (book' v))
    (serves : ∃ L row, book' v = some L ∧ L.device d = some row ∧ row.state = .approved) :
    Ordered v d (cs ++ (action.stores v d).toList) book' := by
  obtain ⟨L', row, hL', hrow, happroved⟩ := serves
  have last := h.last
  generalize book v = x at step last
  rw [hL'] at step
  generalize hy : some L' = y at step
  cases step with
  | absent => cases hy
  | removed quiet empty gone =>
    cases hy
    exact absurd happroved (gone row hrow)
  | opened quiet =>
    rw [quiet]
    refine ⟨by simpa using h.pairwise, fun c hc => ?_⟩
    obtain ⟨L, -, hL, -⟩ := last c (by simpa using hc)
    cases hL
  | kept quiet same =>
    cases hy
    rw [quiet]
    refine ⟨by simpa using h.pairwise, fun c hc => ?_⟩
    obtain ⟨L, row, hL, hrow, hle⟩ := last c (by simpa using hc)
    cases hL
    exact ⟨L', row, hL', same.trans hrow, hle⟩
  | @stored L _ new _ t shows found approved verified later near device stored =>
    cases hy
    rw [shows]
    have before : ∀ c ∈ cs, Before c new := by
      intro c hc
      obtain ⟨L, row, hL, hrow, hle⟩ := last c hc
      cases hL
      rcases hle with rfl | hlt
      · exact later row hrow
      · exact hlt.trans (later row hrow)
    refine ⟨?_, fun c hc => ⟨L', _, hL', stored, ?_⟩⟩
    · rw [List.pairwise_append]
      exact ⟨h.pairwise, List.pairwise_singleton _ _, fun a ha b hb =>
        List.mem_singleton.mp hb ▸ before a ha⟩
    · rcases List.mem_append.mp hc with hc | hc
      · exact .inr (before c hc)
      · exact .inl (List.mem_singleton.mp hc)

theorem Ordered.first (serves : Serves v d sys) :
    Ordered v d (sys.data.latest v d) sys.data.ledger := by
  obtain ⟨L, -, hL, -⟩ := serves.ledger
  unfold State.latest
  cases hrow : sys.data.checkpoint v d with
  | error e => exact ⟨.nil, fun _ h => by cases h⟩
  | ok row =>
    refine ⟨List.pairwise_singleton _ _, fun c hc => ?_⟩
    exact ⟨L, row, hL, (checkpoint_ledger hL).mp hrow, .inl (List.mem_singleton.mp hc)⟩

theorem Run.ordered {later : List Event} {sys' : Sys} (run : Run svc Any events sys)
    (path : Path (Next svc) (Serves v d) sys later sys') (first : Serves v d sys) :
    Ordered v d (sys.data.latest v d ++ later.filterMap (Event.stores v d)) sys'.data.ledger := by
  refine run.traced path (Q := fun later book =>
    Ordered v d (sys.data.latest v d ++ later.filterMap (Event.stores v d)) book) ?_ ?_ ?_
  · simpa using Ordered.first first
  · intro later book shown quiet h
    rw [List.filterMap_append, Event.stores_none quiet, List.append_nil]
    exact h
  · intro later sys' action tx run' hrun serves h
    have := h.step (run'.deviceStep hrun v d) serves.ledger
    rw [List.filterMap_append, ← List.append_assoc]
    convert this using 2
    simp only [List.filterMap_cons, List.filterMap_nil, Event.stores]
    cases action.stores v d <;> rfl

/-- **Checkpoints move forward.** In every run, a stored checkpoint is one of an approved
    device, verifies under that device's key in the list, and is within the skew of the clock
    when it was accepted; and as long as the device is approved, each checkpoint that is stored
    was observed after the ones before it, with a list index and a revision not behind them. -/
theorem checkpoints_advance {events : List Event} {sys : Sys} (run : Run svc Any events sys) :
    (∀ c ∈ sys.data.checkpoints.values, Serves c.vaultID c.deviceID sys ∧
      (∃ list member, loadList svc.crypto sys.data c.vaultID = .ok list ∧
        list.member c.deviceID = some member ∧ member.removedIndex = 0 ∧
        c.verify svc.crypto member.signingKey = .ok ()) ∧ ∃ t, c.Near svc t) ∧
    ∀ vaultID deviceID later sys', Path (Next svc) (Serves vaultID deviceID) sys later sys' →
      (sys.data.latest vaultID deviceID ++
        later.filterMap (Event.stores vaultID deviceID)).Pairwise Before := by
  refine ⟨fun c hc => ?_, fun vaultID deviceID later sys' path => ?_⟩
  · obtain ⟨k, hk⟩ := Table.mem_values.mp hc
    obtain ⟨rfl, stored⟩ := run.wf.checkpoints k c hk
    obtain ⟨vault, hvault⟩ := Option.isSome_iff_exists.mp stored
    have hL := ledger_of_lookup hvault
    obtain ⟨⟨row, hrow, happroved, hverified⟩, near⟩ := run.vouched _ _ hL c.deviceID c hk
    obtain ⟨list, ha⟩ := run.agrees.2 _ _ hL
    obtain ⟨member, hmember, hmatch⟩ := ha.row hrow
    refine ⟨⟨stored, row, (device_ledger hL).mpr hrow, happroved⟩, ⟨list, member, ?_, hmember,
      hmatch.approved_iff.mp happroved, hmatch.signingKey ▸ hverified⟩, near⟩
    exact (loads_iff ha.verified).mpr rfl
  · exact (run.ordered path path.first).pairwise

namespace Demo

/-- A checkpoint of device 1 after the first entry, observed at second `t`. -/
def observed (t : Nat) : Checkpoint :=
  let unsigned : Checkpoint :=
    { version := versionV3, vaultID := vaultID, deviceID := deviceID 1, deviceListIndex := 1,
      deviceListDigest := (createEntry vaultID 1).digest toyCrypto, headerRevision := 0,
      headerDigest := [], observedAt := t, signature := [] }
  { unsigned with signature := signed 1 unsigned.signingPayload }

def observing (nonce : UInt8) (t : Nat) : Action := .call (call 1 1000 nonce (.putCheckpoint (observed t)))

/-- Device 1 creates the vault and stores a checkpoint. -/
def onceObserved : Sys := (execAll (service (still 1000)) (created ++ [observing 2 1000]) start).2

def serving (sys : Sys) : Bool :=
  (sys.data.vaults.lookup vaultID).isSome && match sys.data.device vaultID (deviceID 1) with
    | .ok row => row.state == .approved
    | .error _ => false

theorem serves_of_serving {sys : Sys} (h : serving sys = true) : Serves vaultID (deviceID 1) sys := by
  rw [serving, Bool.and_eq_true] at h
  refine ⟨h.1, ?_⟩
  cases hrow : sys.data.device vaultID (deviceID 1) with
  | ok row => exact ⟨row, rfl, by simpa [hrow] using h.2⟩
  | error e => simp [hrow] at h

end Demo

/-- A second checkpoint, ten seconds later, is stored after the first. -/
theorem Demo.checkpoint_follows : onceObserved.data.latest vaultID (deviceID 1) = [observed 1000] ∧
    (exec (service (still 1000)) (observing 3 1010) onceObserved).1.stores vaultID (deviceID 1) =
      some (observed 1010) ∧
    [observed 1000, observed 1010].Pairwise Before := by
  have row : onceObserved.data.latest vaultID (deviceID 1) = [observed 1000] := by decide +kernel
  have stored : (exec (service (still 1000)) (observing 3 1010) onceObserved).1.stores vaultID
      (deviceID 1) = some (observed 1010) := by decide +kernel
  refine ⟨row, stored, ?_⟩
  have run : Run (service (still 1000)) Any _ onceObserved := execAll_start _ _
  have first : Serves vaultID (deviceID 1) onceObserved := serves_of_serving (by decide +kernel)
  have last : Serves vaultID (deviceID 1)
      (exec (service (still 1000)) (observing 3 1010) onceObserved).2 :=
    serves_of_serving (by decide +kernel)
  have := (checkpoints_advance run).2 _ _ _ _ (.step (.refl first) (.act (observing 3 1010)) last)
  rwa [List.nil_append, List.filterMap_cons_some stored, List.filterMap_nil, row] at this

end Sesame.Syncsvc
