import SesameServer.Lib.History
import SesameServer.Sync.Run

/- One vault through a run, and runs from any state on.

   A `Step` moves the book of all vaults; `Change` is what it does to one of them,
   and `Step.change` reads it off. `Next` is one step of a run from any system, so
   that what happens after some event is a `Path` of its own.

   1. `Step.change` — every vault changes by an action of its own, expires, or stays.
   2. `Next.cases` — a step of a run leaves the ledgers alone or is an accepted action.
   3. `Run.traced` — the induction on runs for properties of the ledgers and of the
      events so far. -/
namespace Sesame.Syncsvc
open Syncproto Outcome State History

/-- The vault that an action's payload names, if it names one. -/
def Action.vaultID : Action → Option Bytes
  | .call ⟨_, _, op⟩ =>
    match op with
    | .createVault entry | .approve entry _ | .remove entry _ | .rotate entry _
    | .upgradeKey entry => some entry.vaultID
    | .upload header _ => some header.vaultID
    | .putCheckpoint checkpoint => some checkpoint.vaultID
    | _ => none
  | .adminReset _ | .maintain => none

variable {svc : Service} {L L' : Ledger} {v : Bytes} {action : Action} {book book' : Book}

theorem Move.vaultID {call : Call} (move : Move svc L call L') {w : Bytes}
    (h : (Action.call call).vaultID = some w) : w = L.vault.id := by
  cases move with
  | offered | answered | confirmed | cancelled | activated => cases h
  | approved acts appends | upgraded acts appends =>
    rw [← Option.some.inj h]
    exact appends.vault
  | rekeyed acts isOp appends =>
    rcases isOp with ⟨rfl, rfl⟩ | ⟨rfl, rfl⟩
    · rw [← Option.some.inj h]
      exact appends.vault
    · rw [← Option.some.inj h]
      exact appends.vault
  | uploaded acts activated device follows =>
    rw [← Option.some.inj h]
    exact follows.vault
  | checkpointed acts activated vault =>
    rw [← Option.some.inj h]
    exact vault

/-! One vault's ledger in a step. -/

/-- What an accepted action does to the ledger of vault `v`. -/
inductive Change (svc : Service) (v : Bytes) : Action → Option Ledger → Option Ledger → Prop
  | same {action : Action} {x : Option Ledger} (elsewhere : action.vaultID ≠ some v) :
      Change svc v action x x
  | opened {caller : Caller} {request : SignedRequest} {entry : DeviceListEntry}
      {list : DeviceList} {now : Time} (here : entry.vaultID = v) (complete : ¬caller.incomplete)
      (verified : verifyDeviceList svc.crypto [entry] = .ok list) :
      Change svc v (.call ⟨caller, request, .createVault entry⟩) none
        (some (opening caller entry list now))
  | expired {action : Action} {L : Ledger} {now : Time} (elsewhere : action.vaultID ≠ some v) :
      Change svc v action (some L) (some (L.expire now))
  | begun {caller : Caller} {request : SignedRequest} {offer : PairingOffer} {L L' : Ledger}
      {now : Time} (move : Move svc (L.expire now) ⟨caller, request, .beginPairing offer⟩ L') :
      Change svc v (.call ⟨caller, request, .beginPairing offer⟩) (some L) (some L')
  | moved {call : Call} {L L' : Ledger} (move : Move svc L call L') :
      Change svc v (.call call) (some L) (some L')
  | closed {action : Action} {L : Ledger} (elsewhere : action.vaultID ≠ some v) :
      Change svc v action (some L) none

/-- **A step, seen from one vault.** -/
theorem Step.change (step : Step svc book action book')
    (ids : ∀ w L, book w = some L → L.vault.id = w) (v : Bytes) :
    Change svc v action (book v) (book' v) := by
  have expire : ∀ {action : Action} {now : Time}, action.vaultID ≠ some v →
      Change svc v action (book v) ((book v).map (Ledger.expire now)) := by
    intro action now h
    cases book v with
    | none => exact .same h
    | some L => exact .expired h
  cases step with
  | @opened caller request entry list now complete fresh verified =>
    by_cases h : v = entry.vaultID
    · rw [h, Function.update_self, fresh]
      exact .opened rfl complete verified
    · rw [Function.update_of_ne h]
      exact .same fun e => h (Option.some.inj e).symm
  | @begun caller request offer w L L' now stored move =>
    by_cases h : v = w
    · rw [h, Function.update_self, stored]
      exact .begun move
    · rw [Function.update_of_ne h]
      exact expire (by simp [Action.vaultID])
  | @moved call w L L' stored move =>
    by_cases h : v = w
    · rw [h, Function.update_self, stored]
      exact .moved move
    · rw [Function.update_of_ne h]
      exact .same fun e => h ((move.vaultID e).trans (ids w L stored))
  | @reset caller request w L actor vaultEpoch stored | @adminReset ownerKey w L stored =>
    by_cases h : v = w
    · rw [h, Function.update_self, stored]
      exact .closed (by simp [Action.vaultID])
    · rw [Function.update_of_ne h]
      exact .same (by simp [Action.vaultID])
  | maintained => exact expire (by simp [Action.vaultID])

/-! Runs from any state on. -/

inductive Next (svc : Service) (sys : Sys) : List Event → Sys → Prop
  | act (action : Action) : Next svc sys [(exec svc action sys).1] (exec svc action sys).2
  | recover (due : Action × SpentNonce) (isDue : due ∈ sys.recovering) :
      Next svc sys [(recover sys due).1] (recover sys due).2
  | idle {data : State} {ticks : Nat} (same : sys.data.Reordered data) (later : sys.ticks ≤ ticks) :
      Next svc sys [] { sys with data := data, ticks := ticks }

variable {events : List Event} {sys sys' : Sys}

theorem Run.path {P : Sys → Action → Prop}
    (run : Run svc P events sys) : Path (Next svc) (fun _ => True) Syncsvc.start events sys := by
  induction run with
  | start => exact .refl trivial
  | act run action meets ih => exact .step ih (.act action) trivial
  | recover run due isDue ih => exact .step ih (.recover due isDue) trivial
  | @idle events sys run data ticks same later ih =>
    have := Path.step ih (Next.idle same later) trivial
    rwa [List.append_nil] at this

theorem Run.next {shown : List Event} (run : Run svc Any events sys)
    (next : Next svc sys shown sys') : Run svc Any (events ++ shown) sys' := by
  cases next with
  | act action => exact .act run action trivial
  | recover due isDue => exact .recover run due isDue
  | idle same later =>
    rw [List.append_nil]
    exact .idle run same later

variable {H : Sys → Prop}

theorem Run.extend {later : List Event} (run : Run svc Any events sys)
    (path : Path (Next svc) H sys later sys') : Run svc Any (events ++ later) sys' := by
  induction path with
  | refl => rwa [List.append_nil]
  | step _ next _ ih =>
    rw [← List.append_assoc]
    exact ih.next next

/-- Actions one after the other, along which `H` holds. -/
theorem execAll_path (actions : List Action)
    (holds : ∀ n ≤ actions.length, H (execAll svc (actions.take n) sys).2) :
    Path (Next svc) H sys (execAll svc actions sys).1 (execAll svc actions sys).2 := by
  induction actions generalizing sys with
  | nil => exact .refl (holds 0 (le_refl _))
  | cons action rest ih =>
    have hrest : Path (Next svc) H (exec svc action sys).2 _ _ :=
      ih fun n hn => holds (n + 1) (Nat.succ_le_succ hn)
    exact (Path.step (.refl (holds 0 (Nat.zero_le _))) (.act action) hrest.first).trans hrest

/-- **A step of a run** leaves the ledgers as they are and accepts nothing, or is an
    accepted action. -/
theorem Next.cases {shown : List Event} (wf : WF sys.data) (next : Next svc sys shown sys') :
    (sys'.data.ledger = sys.data.ledger ∧ ∀ event ∈ shown, event.accepted = false) ∨
    ∃ action tx, svc.run action ⟨sys.data, sys.ticks, none⟩ = .ok () tx ∧
      shown = [.ran action none tx.spent] ∧ sys' = ⟨tx.data, tx.ticks, sys.recovering⟩ := by
  cases next with
  | act action =>
    rcases exec_cases svc action sys with ⟨tx, hrun, hexec⟩ | ⟨e, tx, hrun, hexec⟩
    · rw [hexec]
      exact Or.inr ⟨action, tx, hrun, rfl, rfl⟩
    · rw [hexec]
      exact Or.inl ⟨rfl, by simp [Event.accepted]⟩
  | recover due isDue =>
    exact Or.inl ⟨(recoverNonce_ledger due.2 wf).2, by simp [Syncsvc.recover, Event.accepted]⟩
  | idle same later => exact Or.inl ⟨same.ledger, by simp⟩

/-- **The induction on the steps after a state of a run**, for a property of the
    ledgers and of the events since. -/
theorem Run.traced {later : List Event} {Q : List Event → Book → Prop}
    (run : Run svc Any events sys) (path : Path (Next svc) H sys later sys')
    (first : Q [] sys.data.ledger)
    (skip : ∀ later book shown, (∀ event ∈ shown, event.accepted = false) → Q later book →
      Q (later ++ shown) book) (step : ∀ later sys' action tx, Run svc Any (events ++ later) sys' →
      svc.run action ⟨sys'.data, sys'.ticks, none⟩ = .ok () tx →
      H ⟨tx.data, tx.ticks, sys'.recovering⟩ → Q later sys'.data.ledger →
      Q (later ++ [.ran action none tx.spent]) tx.data.ledger) : Q later sys'.data.ledger := by
  refine path.always (Q := fun later sys' => Q later sys'.data.ledger) first ?_
  intro later sys' shown sys'' path ih next holds
  rcases next.cases (run.extend path).wf with ⟨hledger, hshown⟩ | ⟨action, tx, hrun, rfl, rfl⟩
  · simp only [hledger]
    exact skip later _ shown hshown ih
  · exact step later sys' action tx (run.extend path) hrun holds ih

theorem Run.change {P : Sys → Action → Prop} {tx : Tx}
    (run : Run svc P events sys) (h : svc.run action ⟨sys.data, sys.ticks, none⟩ = .ok () tx)
    (v : Bytes) : Change svc v action (sys.data.ledger v) (tx.data.ledger v) :=
  (run_step run.wf h).2.change (fun _ _ hL => run.wf.ledger_id hL) v

end Sesame.Syncsvc
