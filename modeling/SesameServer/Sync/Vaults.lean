import SesameServer.Sync.Agreement
import SesameServer.Sync.Epochs
import SesameServer.Sync.Membership

/- What a vault is safe from.

   1. `owners_apart` — an operation for one owner leaves the vaults of all others alone.
   2. `vault_moves_forward` — as long as a vault is stored it keeps its owner and its entries,
      and its head, its epoch and its revision never go back. -/
namespace Sesame.Syncsvc
open Syncproto Outcome State History

variable {svc : Service} {L L' : Ledger} {v : Bytes} {events : List Event} {sys sys' : Sys}

/-- The owner an operation is for; `Maintain` is for none. -/
def Action.owner : Action → Option Bytes
  | .call c => some c.caller.ownerKey
  | .adminReset ownerKey => some ownerKey
  | .maintain => none

theorem Move.owner {call : Call} (move : Move svc L call L') :
    (Action.call call).owner = some L.vault.ownerKey := by
  cases move with
  | offered _ owner => exact congrArg some owner.symm
  | answered acts | confirmed acts | cancelled acts | approved acts | activated acts | rekeyed acts
  | upgraded acts | uploaded acts | checkpointed acts =>
    exact congrArg some (acts.vault ▸ acts.owner).symm

/-- **Owners are apart.** Whatever is asked for in a reachable state, another owner's vault stays
    as it is, or loses just the pairings that had expired at a reading of the clock during the
    operation. -/
theorem owners_apart {P : Sys → Action → Prop} (run : Run svc P events sys) {action : Action}
    (stored : sys.data.ledger v = some L) (other : action.owner ≠ some L.vault.ownerKey) :
    (exec svc action sys).2.data.ledger v = some L ∨
      ∃ k, sys.ticks ≤ k ∧ k < (exec svc action sys).2.ticks ∧
        (exec svc action sys).2.data.ledger v = some (L.expire (svc.clock k)) := by
  -- the vault that a step acts on belongs to the action's owner, so it is not `v`
  have apart : ∀ {w L₀}, sys.data.ledger w = some L₀ → action.owner = some L₀.vault.ownerKey →
      v ≠ w := by
    rintro w L₀ hw howner rfl
    cases stored.symm.trans hw
    exact other howner
  have kept : ∀ {w x}, v ≠ w → Function.update sys.data.ledger w x v = some L :=
    fun h => (Function.update_of_ne h ..).trans stored
  rcases exec_cases svc action sys with ⟨tx, hrun, hexec⟩ | ⟨e, tx, hrun, hexec⟩ <;> rw [hexec]
  · obtain ⟨-, hstep⟩ := run_step (by exact run.wf) hrun
    generalize hbook : tx.data.ledger = book' at hstep
    dsimp only
    cases hstep with
    | opened _ fresh => exact .inl (kept (by rintro rfl; cases fresh.symm.trans stored))
    | begun =>
      -- the purge reads the clock fourth, after the three readings for the request
      obtain ⟨M, previous, b⟩ := beginPairing_ok (by exact run.wf) hrun
      refine .inr ⟨sys.ticks + 3, Nat.le_add_right .., by rw [b.ticks]; simp, ?_⟩
      rw [← hbook, b.ledger, Function.update_of_ne (apart b.stored (congrArg some b.owner.symm))]
      exact congrArg _ stored
    | moved hw move => exact .inl (kept (apart hw move.owner))
    | reset hw acts => exact .inl (kept (apart hw (congrArg some (acts.vault ▸ acts.owner).symm)))
    | adminReset hw owner => exact .inl (kept (apart hw (congrArg some owner.symm)))
    | maintained =>
      simp only [Service.run, Service.maintain, bind_ok, Service.now_ok, write_ok] at hrun
      obtain ⟨_, _, ⟨rfl, rfl⟩, rfl⟩ := hrun
      refine .inr ⟨sys.ticks, le_refl _, Nat.lt_succ_self _, ?_⟩
      rw [← hbook, ledger_purgeExpired]
      exact congrArg _ stored
  · exact .inl stored

theorem verifyDeviceList_epoch_le {crypto : Crypto} {entries entries' : List DeviceListEntry}
    {list list' : DeviceList} (h : verifyDeviceList crypto entries = .ok list)
    (h' : verifyDeviceList crypto entries' = .ok list') (longer : entries <+: entries') :
    list.epoch ≤ list'.epoch := by
  by_cases hnil : entries = []
  · subst hnil
    obtain rfl := Except.ok.inj h
    exact Nat.zero_le _
  · rw [(verifyDeviceList_kept h).epoch hnil,
      (verifyDeviceList_kept h').epoch fun h0 => hnil (List.prefix_nil.mp (h0 ▸ longer))]
    exact Nat.add_le_add_left longer.sublist.countP_le 1

/-- What a vault keeps. -/
structure Ledger.Forward (L L' : Ledger) : Prop where
  owner : L'.vault.ownerKey = L.vault.ownerKey
  revision : L.vault.currentRevision ≤ L'.vault.currentRevision
  entries : L.entries <+: L'.entries

theorem Move.forward {call : Call} (move : Move svc L call L') : L.Forward L' := by
  cases move with
  | offered | answered | confirmed | cancelled | activated | checkpointed =>
    exact ⟨rfl, le_refl _, List.prefix_refl _⟩
  | approved | rekeyed | upgraded => exact ⟨rfl, le_refl _, List.prefix_append ..⟩
  | uploaded _ _ _ follows =>
    exact ⟨rfl, by simp [(checkedNext_some.mp follows.revision).2], List.prefix_refl _⟩

/-- **A vault moves forward** from any reachable state on, as long as it is stored. -/
theorem vault_moves_forward (run : Run svc Any events sys) (stored : sys.data.ledger v = some L)
    {later : List Event} (path : Path (Next svc) (fun s => (s.data.ledger v).isSome) sys later sys') :
    ∃ L', sys'.data.ledger v = some L' ∧ L.Forward L' ∧
      L.vault.headIndex ≤ L'.vault.headIndex ∧ L.vault.epoch ≤ L'.vault.epoch := by
  obtain ⟨L', stored', forward⟩ := run.traced path
    (Q := fun _ book => ∃ L', book v = some L' ∧ L.Forward L')
    ⟨L, stored, rfl, le_refl _, List.prefix_refl _⟩ (fun _ _ _ _ h => h) <| by
      rintro later s action tx run hrun kept ⟨L₁, stored₁, forward⟩
      obtain ⟨L₂, stored₂⟩ := Option.isSome_iff_exists.mp kept
      have hchange := run.change hrun v
      rw [stored₁, stored₂] at hchange
      refine ⟨L₂, stored₂, ?_⟩
      cases hchange with
      | same => exact forward
      | expired => exact ⟨forward.owner, forward.revision, forward.entries⟩
      | begun move | moved move =>
        have next := move.forward
        exact ⟨next.owner.trans forward.owner, forward.revision.trans next.revision,
          forward.entries.trans next.entries⟩
  -- head and epoch are those of the entries, before and after
  obtain ⟨list, agrees⟩ := run.agrees.2 v L stored
  obtain ⟨list', agrees'⟩ := (run.extend path).agrees.2 v L' stored'
  exact ⟨L', stored', forward, agrees.head.trans_le (agrees'.head ▸ forward.entries.length_le),
    agrees.epoch.trans_le (agrees'.epoch ▸
      verifyDeviceList_epoch_le agrees.verified agrees'.verified forward.entries)⟩

namespace Demo

def tenant (n : UInt8) : Caller := { Demo.caller n with ownerKey := utf8 "tenant" }

/-- The clock that reads second 1000 thirteen times, and then second 2000. -/
def jumping : Nat → Time := fun k => if k < 13 then 1000 * second else 2000 * second

/-- Device 1 creates a vault, which device 2 asks to join, and another owner a vault of theirs. -/
def neighbours : List Action :=
  created ++ [.call (call 2 1000 2 (.beginPairing ⟨deviceID 2, signingKey 2, packageKey 2, utf8 "offer"⟩)),
    .call (callAs (tenant 4) 4 1000 3 (.createVault (createEntry (utf8 "demo-vault-00002") 4)))]

/-- A second device asks to join the other owner's vault. -/
def joins : Action :=
  .call (callAs (tenant 5) 5 2000 4
    (.beginPairing ⟨deviceID 5, signingKey 5, packageKey 5, utf8 "offer"⟩))

def before : Sys := (execAll (service jumping) neighbours start).2

def after : Sys := (exec (service jumping) joins before).2

/-- The other owner's request is accepted, and takes the expired pairing of device 2 with it. -/
theorem owners_apart_neighbours : (exec (service jumping) joins before).1.accepted = true ∧
    ∃ L k, before.data.ledger vaultID = some L ∧ (L.pairing (deviceID 2)).isSome = true ∧
      before.ticks ≤ k ∧ k < after.ticks ∧
      after.data.ledger vaultID = some (L.expire (jumping k)) := by
  have hvault : before.data.vaults.lookup vaultID = some createdVault := by decide +kernel
  have hoffered : ((before.data.ledgerOf vaultID createdVault).pairing (deviceID 2)).isSome =
      true := by decide +kernel
  have hgone : after.data.pairings.lookup (key [vaultID, deviceID 2]) = none := by decide +kernel
  have hL := ledger_of_lookup hvault
  refine ⟨by decide +kernel, before.data.ledgerOf vaultID createdVault, ?_⟩
  have hother : joins.owner ≠ some createdVault.ownerKey := by decide
  rcases owners_apart (execAll_start _ neighbours) hL hother with
    hsame | ⟨k, hfirst, hlast, hexpired⟩
  · obtain ⟨p, hp⟩ := Option.isSome_iff_exists.mp hoffered
    have hpairing : after.data.pairing vaultID (deviceID 2) = .ok p := (pairing_ledger hsame).mpr hp
    rw [State.pairing, hgone] at hpairing
    cases hpairing
  · exact ⟨k, hL, hoffered, hfirst, hlast, hexpired⟩

def opened : Sys := (execAll (service (still 1000)) created start).2

/-- It uploads a snapshot, rotates the epoch and uploads another; then device 2 asks to join. -/
def grows : List Action :=
  rotates.drop 1 ++
    [.call (call 2 1000 5 (.beginPairing ⟨deviceID 2, signingKey 2, packageKey 2, utf8 "offer"⟩))]

def grown : Sys := (execAll (service (still 1000)) grows opened).2

theorem vault_moves_forward_grown :
    (execAll (service (still 1000)) grows opened).1.all Event.accepted = true ∧
    ∃ L L', opened.data.ledger vaultID = some L ∧ grown.data.ledger vaultID = some L' ∧
      L.Forward L' ∧ L.vault.headIndex ≤ L'.vault.headIndex ∧ L.vault.epoch ≤ L'.vault.epoch ∧
      L'.vault.headIndex = 2 ∧ L'.vault.epoch = 2 ∧ L'.vault.currentRevision = 2 := by
  have run : Run (service (still 1000)) Any _ opened := execAll_start _ created
  have stored : opened.data.ledger vaultID = some _ := ledger_of_lookup created_stored
  have hkept : ∀ n ≤ grows.length, ((execAll (service (still 1000)) (grows.take n)
      opened).2.data.ledger vaultID).isSome := by decide +kernel
  have hvault : (grown.data.vaults.lookup vaultID).map
      (fun vault => (vault.headIndex, vault.epoch, vault.currentRevision)) = some (2, 2, 2) := by
    decide +kernel
  have path : History.Path (Next (service (still 1000))) (fun s => (s.data.ledger vaultID).isSome)
      opened _ grown := execAll_path grows hkept
  obtain ⟨L', stored', forward, head, epoch⟩ := vault_moves_forward run stored path
  rw [(ledger_some stored').1, Option.map_some, Option.some.injEq, Prod.mk.injEq,
    Prod.mk.injEq] at hvault
  exact ⟨by decide +kernel, _, L', stored, stored', forward, head, epoch, hvault⟩

end Demo
end Sesame.Syncsvc
