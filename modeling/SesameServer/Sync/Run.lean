import SesameServer.Sync.Refinement

/- Runs of the sync service.

   The store serialises transactions, and a failed request's nonce is recorded
   again by a transaction of its own, so between the two any other may run. A
   `Sys` is the store, how far the clock has been read, and the failed requests
   whose recovery has not run yet; a run is any interleaving of operations,
   recoveries and idle steps. In an idle step other readers advance the clock, and
   the maps are met in another order, which Go leaves open.

   A run carries a condition `P` on each operation it performs, so that a result
   about runs without a certain step says which. `Run.holds` is the induction: a
   property of ledgers that every `Step` keeps holds of every stored vault. -/
namespace Sesame.Syncsvc
open Syncproto Outcome State

/-! The same maps in another order. -/

/-- The store with its maps met in another order. -/
structure State.Reordered (s s' : State) : Prop where
  vaults : s.vaults.Reordered s'.vaults
  devices : s.devices.Reordered s'.devices
  entries : s.entries.Reordered s'.entries
  packages : s.packages.Reordered s'.packages
  headers : ∀ v, Option.Rel Table.Reordered (s.headers.lookup v) (s'.headers.lookup v)
  ciphertexts : ∀ v, Option.Rel Table.Reordered (s.ciphertexts.lookup v) (s'.ciphertexts.lookup v)
  pairings : s.pairings.Reordered s'.pairings
  checkpoints : s.checkpoints.Reordered s'.checkpoints
  nonces : s.nonces.Reordered s'.nonces

theorem State.Reordered.refl (s : State) : s.Reordered s := by
  have rel : ∀ {ν : Type} (x : Option (Table Nat ν)), Option.Rel Table.Reordered x x := by
    intro ν x
    cases x with
    | none => exact .none
    | some t => exact .some (List.Perm.refl _)
  exact ⟨List.Perm.refl _, List.Perm.refl _, List.Perm.refl _, List.Perm.refl _, fun _ => rel _,
    fun _ => rel _, List.Perm.refl _, List.Perm.refl _, List.Perm.refl _⟩

theorem State.Reordered.ledger {s s' : State} (h : s.Reordered s') : s'.ledger = s.ledger := by
  have hheaders : ∀ v r, (s'.headersOf v).lookup r = (s.headersOf v).lookup r := by
    intro v r
    have hrel := h.headers v
    unfold headersOf Table.getD
    generalize s.headers.lookup v = a at hrel ⊢
    generalize s'.headers.lookup v = b at hrel ⊢
    cases hrel with
    | some hr => exact (hr.lookup r).symm
    | none => rfl
  have hciphertexts : ∀ v, (s'.ciphertextsOf v).toFinmap = (s.ciphertextsOf v).toFinmap := by
    intro v
    have hrel := h.ciphertexts v
    unfold ciphertextsOf Table.getD
    generalize s.ciphertexts.lookup v = a at hrel ⊢
    generalize s'.ciphertexts.lookup v = b at hrel ⊢
    cases hrel with
    | some hr => exact (AList.toFinmap_eq.mpr hr).symm
    | none => rfl
  funext v
  unfold State.ledger
  rw [h.vaults.lookup v]
  congr 1
  funext vault
  simp only [ledgerOf, entriesOf, Table.getD, h.entries.lookup, h.devices.lookup,
    h.packages.lookup, h.pairings.lookup, h.checkpoints.lookup, hheaders, hciphertexts]

theorem State.Reordered.wf {s s' : State} (h : s.Reordered s') (wf : WF s) : WF s' := by
  have hst : ∀ v, s.Stored v → s'.Stored v := by
    intro v hv
    unfold Stored at hv ⊢
    rwa [← h.vaults.lookup v]
  have keyed : ∀ {ρ : Type} {vaultOf idOf : ρ → Bytes} {t t' : Table Bytes ρ}, t.Reordered t' →
      Keyed vaultOf idOf s.Stored t → Keyed vaultOf idOf s'.Stored t' := by
    intro ρ vaultOf idOf t t' ht hk k r hr
    rw [← ht.lookup k] at hr
    exact ⟨(hk k r hr).1, hst _ (hk k r hr).2⟩
  refine ⟨fun v a ha => ?_, fun v w a b ha hb => ?_, keyed h.devices wf.devices,
    keyed h.packages wf.packages, keyed h.pairings wf.pairings,
    keyed h.checkpoints wf.checkpoints, fun v x hx => ?_, fun v x hx => ?_, fun v x hx => ?_⟩
  · exact wf.vaults v a (by rwa [h.vaults.lookup v])
  · exact wf.owners v w a b (by rwa [h.vaults.lookup v]) (by rwa [h.vaults.lookup w])
  · exact hst v (wf.entries v x (by rwa [h.entries.lookup v]))
  · have hrel := h.headers v
    rw [hx] at hrel
    cases hs : s.headers.lookup v with
    | none => rw [hs] at hrel; cases hrel
    | some y => exact hst v (wf.headers v y hs)
  · have hrel := h.ciphertexts v
    rw [hx] at hrel
    cases hs : s.ciphertexts.lookup v with
    | none => rw [hs] at hrel; cases hrel
    | some y => exact hst v (wf.ciphertexts v y hs)

/-! Runs. -/

structure Sys where
  data : State
  ticks : Nat
  recovering : List (Action × SpentNonce)

/-- A new store, before the first reading of the clock. -/
def start : Sys := ⟨newState, 0, []⟩

inductive Event where
  | ran (action : Action) (error : Option Err) (spent : Option SpentNonce)
  | recovered (action : Action) (spent : SpentNonce) (fresh : Bool)

/-- The step is an operation that succeeded. -/
def Event.accepted : Event → Bool
  | .ran _ error _ => error.isNone
  | .recovered _ _ _ => false

/-- An operation's transaction. If it fails after recording a nonce, the recovery
    of that nonce is due. -/
def exec (svc : Service) (action : Action) (sys : Sys) : Event × Sys :=
  let done := transact (svc.run action) sys.data sys.ticks
  (.ran action done.error done.spent,
    { data := done.data
      ticks := done.ticks
      recovering := match done.error, done.spent with
        | some _, some spent => (action, spent) :: sys.recovering
        | _, _ => sys.recovering })

def recover (sys : Sys) (due : Action × SpentNonce) : Event × Sys :=
  let recorded := recoverNonce sys.data due.2
  (.recovered due.1 due.2 recorded.1,
    { sys with data := recorded.2, recovering := sys.recovering.erase due })

/-- The runs from a new store whose operations all meet `P`. -/
inductive Run (svc : Service) (P : Sys → Action → Prop) : List Event → Sys → Prop
  | start : Run svc P [] start
  | act {events : List Event} {sys : Sys} (run : Run svc P events sys) (action : Action)
      (meets : P sys action) :
      Run svc P (events ++ [(exec svc action sys).1]) (exec svc action sys).2
  | recover {events : List Event} {sys : Sys} (run : Run svc P events sys)
      (due : Action × SpentNonce) (isDue : due ∈ sys.recovering) :
      Run svc P (events ++ [(recover sys due).1]) (recover sys due).2
  | idle {events : List Event} {sys : Sys} (run : Run svc P events sys) {data : State} {ticks : Nat}
      (same : sys.data.Reordered data) (later : sys.ticks ≤ ticks) :
      Run svc P events { sys with data := data, ticks := ticks }

def Any : Sys → Action → Prop := fun _ _ => True

/-- The actions of `actions` one after the other, with no recovery in between. -/
def execAll (svc : Service) : List Action → Sys → List Event × Sys
  | [], sys => ([], sys)
  | action :: rest, sys =>
    let (event, sys') := exec svc action sys
    let (events, sys'') := execAll svc rest sys'
    (event :: events, sys'')

variable {svc : Service} {P : Sys → Action → Prop} {events : List Event} {sys : Sys}

theorem execAll_run : ∀ (actions : List Action)
    {events : List Event} {sys : Sys}, (∀ sys, ∀ action ∈ actions, P sys action) →
    Run svc P events sys →
    Run svc P (events ++ (execAll svc actions sys).1) (execAll svc actions sys).2
  | [], _, _, _, run => by simpa [execAll] using run
  | action :: rest, events, sys, meets, run => by
    have hrest := fun s a ha => meets s a (List.mem_cons_of_mem action ha)
    have := execAll_run rest hrest (.act run action (meets sys action List.mem_cons_self))
    simpa [execAll] using this

/-- The run of `actions` from a new store. -/
theorem execAll_start (svc : Service) (actions : List Action) :
    Run svc Any (execAll svc actions start).1 (execAll svc actions start).2 :=
  execAll_run actions (fun _ _ _ => trivial) .start

/-- The recovery at position `i` of those that are due, if there is one. -/
def recoverAt (i : Nat) (sys : Sys) : List Event × Sys :=
  match sys.recovering[i]? with
  | some due => ([(recover sys due).1], (recover sys due).2)
  | none => ([], sys)

theorem recoverAt_run (i : Nat) (run : Run svc P events sys) :
    Run svc P (events ++ (recoverAt i sys).1) (recoverAt i sys).2 := by
  unfold recoverAt
  cases hdue : sys.recovering[i]? with
  | none => simpa using run
  | some due => exact .recover run due (List.mem_of_getElem? hdue)

/-! Transactions and recoveries. -/

/-- **What an operation does to the system**: its transaction commits, or it fails
    and leaves the store and perhaps a recovery behind. -/
theorem exec_cases (svc : Service) (action : Action) (sys : Sys) :
    (∃ tx, svc.run action ⟨sys.data, sys.ticks, none⟩ = .ok () tx ∧
      exec svc action sys = (.ran action none tx.spent, ⟨tx.data, tx.ticks, sys.recovering⟩)) ∨
    ∃ e tx, svc.run action ⟨sys.data, sys.ticks, none⟩ = .error e tx ∧
      exec svc action sys = (.ran action (some e) tx.spent, ⟨sys.data, tx.ticks,
        tx.spent.elim sys.recovering (fun spent => (action, spent) :: sys.recovering)⟩) := by
  unfold exec transact
  cases svc.run action ⟨sys.data, sys.ticks, none⟩ with
  | ok u tx => exact Or.inl ⟨tx, rfl, rfl⟩
  | error e tx =>
    refine Or.inr ⟨e, tx, rfl, ?_⟩
    obtain ⟨data, ticks, spent⟩ := tx
    cases spent <;> rfl

/-- Recording a nonce changes the nonce table and nothing else. -/
theorem recordNonce_data (s : State) (scope nonce : Bytes) (now expires : Time) :
    (s.recordNonce scope nonce now expires).2 = s ∨
      (s.recordNonce scope nonce now expires).2 =
        { s with nonces := s.nonces.insert (key [scope, nonce]) expires } := by
  unfold State.recordNonce
  cases s.nonces.lookup (key [scope, nonce]) with
  | none => exact Or.inr rfl
  | some until_ =>
    by_cases h : now < until_
    · simp [h]
    · simp [h]

theorem recoverNonce_ledger {s : State} (spent : SpentNonce) (wf : WF s) :
    WF (recoverNonce s spent).2 ∧ (recoverNonce s spent).2.ledger = s.ledger := by
  unfold recoverNonce
  rcases recordNonce_data s spent.scope spent.nonce spent.now spent.expires with h | h <;> rw [h]
  · exact ⟨wf, rfl⟩
  · exact ⟨wf.nonces _, ledger_nonces _⟩

/-- An operation keeps the store well formed; its ledgers stay, or it is accepted
    and they make a step. -/
theorem exec_step {action : Action} (wf : WF sys.data) :
    WF (exec svc action sys).2.data ∧ ((exec svc action sys).2.data.ledger = sys.data.ledger ∨
      (exec svc action sys).1.accepted = true ∧
      Step svc sys.data.ledger action (exec svc action sys).2.data.ledger) := by
  rcases exec_cases svc action sys with ⟨tx, hrun, hexec⟩ | ⟨e, tx, hrun, hexec⟩ <;> rw [hexec]
  · obtain ⟨hwf, hstep⟩ := run_step (by exact wf) hrun
    exact ⟨hwf, Or.inr ⟨rfl, hstep⟩⟩
  · exact ⟨wf, Or.inl rfl⟩

/-- **The induction on runs.** What holds of no vault at first and is kept by every
    step of a run holds of every stored vault. -/
theorem Run.holds {Q : Ledger → Prop} (step : ∀ sys action book', WF sys.data → P sys action →
      (exec svc action sys).1.accepted = true → (∀ v L, sys.data.ledger v = some L → Q L) →
      Step svc sys.data.ledger action book' → ∀ v L, book' v = some L → Q L)
    (run : Run svc P events sys) : WF sys.data ∧ ∀ v L, sys.data.ledger v = some L → Q L := by
  induction run with
  | start => exact ⟨newState_wf, fun v L hL => by cases hL⟩
  | act run action meets ih =>
    obtain ⟨hwf, hstep⟩ := exec_step ih.1
    refine ⟨hwf, ?_⟩
    rcases hstep with hsame | ⟨haccepted, hstep⟩
    · rw [hsame]
      exact ih.2
    · exact step _ action _ ih.1 meets haccepted ih.2 hstep
  | recover run due isDue ih =>
    obtain ⟨hwf, hledger⟩ := recoverNonce_ledger due.2 ih.1
    refine ⟨hwf, ?_⟩
    show ∀ v L, (recoverNonce _ due.2).2.ledger v = some L → Q L
    rw [hledger]
    exact ih.2
  | idle run same later ih =>
    refine ⟨same.wf ih.1, ?_⟩
    show ∀ v L, State.ledger _ v = some L → Q L
    rw [same.ledger]
    exact ih.2

theorem Run.wf (run : Run svc P events sys) : WF sys.data :=
  (run.holds (Q := fun _ => True) fun _ _ _ _ _ _ _ _ _ _ _ => trivial).1

end Sesame.Syncsvc
