import Mathlib.Data.Int.ConditionallyCompleteOrder
import SesameServer.Sync.Requests

/- A signed request takes effect at most once.

   A nonce is kept for eleven minutes, and a request is accepted within five
   minutes of its timestamp, before or after it. So a nonce outlasts every request
   it was spent for (`Covers`), as long as the clock never goes back, is not before
   1970 and does not run away within one operation. `Held` is what the nonce table
   owes a spent nonce until then: to be there, or to have expired for good.

   1. `Held.exec`, `Held.recovered` — no operation, purge or recovery forgets a
      nonce that has not expired.
   2. `replay_refused` — so the same request is refused.
   3. `signed_request_once` — over whole runs. -/
namespace Sesame.Syncsvc
open Syncproto Outcome State Service

/-- The clock never goes back and is not before 1970. -/
structure Steady (svc : Service) : Prop where
  mono : Monotone svc.clock
  epoch : ∀ t, 0 ≤ svc.clock t

/-- One operation's readings of the clock lie at most 59 seconds apart. -/
def Prompt (svc : Service) (sys : Sys) (action : Action) : Prop :=
  svc.clock ((exec svc action sys).2.ticks - 1) ≤ svc.clock sys.ticks + 59 * second

/-- The nonce is still recorded, or has expired by every later reading of the clock. -/
def Held (svc : Service) (data : State) (ticks : Nat) (spent : SpentNonce) : Prop :=
  (∃ until_, data.nonces.lookup (key [spent.scope, spent.nonce]) = some until_ ∧
    spent.expires ≤ until_) ∨ spent.expires ≤ svc.clock ticks

/-- The spent nonce is the one of the call and outlasts it: at second
    `timestamp + 300` the call expires, and a minute later the nonce. -/
structure Covers (call : Call) (spent : SpentNonce) : Prop where
  nonce : spent.nonce = call.request.nonce
  expires : (call.request.timestamp + requestTimestampSkew + 60) * second ≤ spent.expires

/-- A request made at most 300 seconds ahead of the clock is outlasted by its nonce. -/
theorem nonce_outlasts {timestamp : Nat} {now base : Int} (hnow : 0 ≤ now)
    (hskew : timestamp ≤ (unixSeconds now).toNat + requestTimestampSkew) (hbase : now ≤ base) :
    (timestamp + requestTimestampSkew + 60) * second ≤ base + requestNonceRetention * second := by
  unfold unixSeconds second requestNonceRetention requestTimestampSkew at *
  dsimp only [Time] at *
  omega

/-- A request is accepted at most 300 seconds and one prompt operation after its
    timestamp. -/
theorem accepted_early {timestamp : Nat} {first now last expires : Int} (hnow : 0 ≤ now)
    (hskew : (unixSeconds now).toNat ≤ timestamp + requestTimestampSkew) (hfirst : first ≤ now)
    (hlast : last ≤ first + 59 * second)
    (hexpires : (timestamp + requestTimestampSkew + 60) * second ≤ expires) : last < expires := by
  unfold unixSeconds second requestTimestampSkew at *
  dsimp only [Time] at *
  omega

variable {svc : Service} {tx tx' : Tx} {spent : SpentNonce} {sys : Sys} {call : Call}
  {action : Action} {scope : Bytes}

/-! What is held stays held. -/

theorem Held.later (steady : Steady svc) {data : State} {ticks ticks' : Nat}
    (h : Held svc data ticks spent) (hticks : ticks ≤ ticks') : Held svc data ticks' spent :=
  h.imp id fun hexpired => hexpired.trans (steady.mono hticks)

theorem Held.quiet (steady : Steady svc) (h : Held svc tx.data tx.ticks spent)
    (q : Quiet svc tx tx') : Held svc tx'.data tx'.ticks spent := by
  rcases h with ⟨u, hu, hle⟩ | hexpired
  · rcases q.nonces _ u hu with hu' | ⟨t, _, ht, hut⟩
    · exact Or.inl ⟨u, hu', hle⟩
    · -- it was dropped, so it had expired
      exact Or.inr ((hle.trans hut).trans (steady.mono ht.le))
  · exact Or.inr (hexpired.trans (steady.mono q.ticks))

variable {caller : Caller} {request : SignedRequest} {events : List Event}

theorem Held.verified (steady : Steady svc) {key : Bytes} (h : Held svc tx.data tx.ticks spent)
    (v : Verified svc scope key caller request tx tx') : Held svc tx'.data tx'.ticks spent := by
  have hticks := v.ticks
  rcases h with ⟨u, hu, hle⟩ | hexpired
  · by_cases hid : Syncsvc.key [spent.scope, spent.nonce] = Syncsvc.key [scope, request.nonce]
    · -- the same nonce was accepted as fresh, so it had expired
      rw [hid] at hu
      have hlate : u ≤ svc.clock tx'.ticks := (v.fresh u hu).trans (steady.mono (by omega))
      exact Or.inr (hle.trans hlate)
    · refine Or.inl ⟨u, ?_, hle⟩
      rw [v.data, Table.lookup_insert_eq, if_neg hid]
      exact hu
  · exact Or.inr (hexpired.trans (steady.mono (by omega)))

theorem Spends.ticks (h : Spends svc caller request scope tx tx') : tx.ticks + 3 ≤ tx'.ticks := by
  obtain ⟨_, a, b, hread, hverified, hquiet⟩ := h
  have h₁ := hread.ticks
  have h₂ := hverified.ticks
  have h₃ := hquiet.ticks
  omega

theorem Held.spends (steady : Steady svc) (h : Held svc tx.data tx.ticks spent)
    (hspends : Spends svc caller request scope tx tx') : Held svc tx'.data tx'.ticks spent := by
  obtain ⟨_, a, b, hread, hverified, hquiet⟩ := hspends
  have ha : Held svc a.data a.ticks spent := by
    rw [hread.data]
    exact h.later steady hread.ticks
  exact (ha.verified steady hverified).quiet steady hquiet

theorem run_ticks : Keeps (fun tx tx' => tx.ticks ≤ tx'.ticks) (svc.run action) := by
  cases action with
  | adminReset ownerKey =>
    exact fun tx => ⟨fun _ _ h => ((adminReset_quiet ownerKey tx).1 _ _ h).ticks,
      fun _ _ h => ((adminReset_quiet ownerKey tx).2 _ _ h).ticks⟩
  | maintain =>
    exact fun tx => ⟨fun _ _ h => ((maintain_quiet tx).1 _ _ h).ticks,
      fun _ _ h => ((maintain_quiet tx).2 _ _ h).ticks⟩
  | call call =>
    have hspends : ∀ {tx tx' : Tx}, SpendsFor svc call tx tx' → tx.ticks ≤ tx'.ticks := by
      rintro tx tx' ⟨_, _, hs⟩
      have := hs.ticks
      omega
    refine fun tx => ⟨fun _ tx' h => hspends ((run_spends tx).1 _ tx' h), fun _ tx' h => ?_⟩
    rcases (run_spends tx).2 _ tx' h with hread | hs
    · exact hread.ticks
    · exact hspends hs

/-- **No operation forgets a nonce that has not expired.** -/
theorem Held.exec (steady : Steady svc) (h : Held svc sys.data sys.ticks spent) :
    Held svc (exec svc action sys).2.data (exec svc action sys).2.ticks spent := by
  rcases exec_cases svc action sys with ⟨tx, hrun, hexec⟩ | ⟨e, tx, hrun, hexec⟩ <;> rw [hexec]
  · cases action with
    | adminReset ownerKey => exact h.quiet steady ((adminReset_quiet ownerKey _).1 _ _ hrun)
    | maintain => exact h.quiet steady ((maintain_quiet _).1 _ _ hrun)
    | call call =>
      obtain ⟨_, _, hspends⟩ := (run_spends _).1 _ _ hrun
      exact h.spends steady hspends
  · exact h.later steady ((run_ticks _).2 _ _ hrun)

/-- Nor does a recovery, whose own nonce was spent at a time that has passed. -/
theorem Held.recovered {data : State} {ticks : Nat} {due : SpentNonce}
    (h : Held svc data ticks spent) (hpast : due.now ≤ svc.clock ticks) :
    Held svc (recoverNonce data due).2 ticks spent := by
  cases hfresh : (recoverNonce data due).1 with
  | false =>
    have hsame : (recoverNonce data due).2 = data := recordNonce_stale hfresh
    rw [hsame]
    exact h
  | true =>
    obtain ⟨hold, hdata⟩ := recordNonce_fresh (Prod.ext hfresh rfl :
      data.recordNonce due.scope due.nonce due.now due.expires = (true, (recoverNonce data due).2))
    rcases h with ⟨u, hu, hle⟩ | hexpired
    · by_cases hid : key [spent.scope, spent.nonce] = key [due.scope, due.nonce]
      · rw [hid] at hu
        exact Or.inr ((hle.trans (hold u hu)).trans hpast)
      · refine Or.inl ⟨u, ?_, hle⟩
        rw [hdata, Table.lookup_insert_eq, if_neg hid]
        exact hu
    · exact Or.inr hexpired

/-! What is spent is held. -/

/-- A nonce that a transaction recorded: it covers the call, was recorded at a time
    that has passed, and is in the table. -/
structure SpentFor (svc : Service) (call : Call) (tx : Tx) (spent : SpentNonce) : Prop where
  covers : Covers call spent
  past : spent.now ≤ svc.clock tx.ticks
  held : Held svc tx.data tx.ticks spent

theorem Spends.leaves (steady : Steady svc) (h : Spends svc call.caller call.request scope tx tx') :
    ∃ spent, tx'.spent = some spent ∧ spent.scope = scope ∧ SpentFor svc call tx' spent := by
  obtain ⟨_, a, b, hread, hverified, hquiet⟩ := h
  have hticks := hverified.ticks
  refine ⟨_, by rw [hquiet.spent, hverified.spent], rfl, ⟨rfl, ?_⟩, ?_, ?_⟩
  · exact nonce_outlasts (steady.epoch a.ticks) (RequestSignature.verify_skew hverified.signed).1
      (steady.mono (Nat.le_succ _))
  · exact steady.mono (le_trans (by omega) hquiet.ticks)
  · refine Held.quiet steady (Or.inl ⟨_, ?_, le_refl _⟩) hquiet
    rw [hverified.data, AList.lookup_insert]

/-- The event leaves a nonce of the call spent: the call was accepted, or it failed
    and the recovery recorded its nonce. -/
def Event.Spent (event : Event) (call : Call) (spent : SpentNonce) : Prop :=
  event = .ran (.call call) none (some spent) ∨ event = .recovered (.call call) spent true

/-- Every nonce spent so far is held, and so will be those still to be recovered. -/
structure Guarded (svc : Service) (events : List Event) (sys : Sys) : Prop where
  due : ∀ due ∈ sys.recovering, (∃ call, due.1 = .call call ∧ Covers call due.2) ∧
    due.2.now ≤ svc.clock sys.ticks
  held : ∀ event ∈ events, ∀ call spent, event.Spent call spent →
    Covers call spent ∧ Held svc sys.data sys.ticks spent

theorem exec_spent (steady : Steady svc)
    (h : svc.run (.call call) ⟨sys.data, sys.ticks, none⟩ = .ok () tx) :
    ∃ spent, tx.spent = some spent ∧ SpentFor svc call tx spent := by
  obtain ⟨_, _, hspends⟩ := (run_spends _).1 _ _ h
  obtain ⟨spent, hspent, _, hfor⟩ := hspends.leaves steady
  exact ⟨spent, hspent, hfor⟩

/-- So has a failed one, if it leaves a recovery behind. -/
theorem exec_due (steady : Steady svc) {e : Err}
    (h : svc.run action ⟨sys.data, sys.ticks, none⟩ = .error e tx) (hspent : tx.spent = some spent) :
    ∃ call, action = .call call ∧ SpentFor svc call tx spent := by
  cases action with
  | adminReset ownerKey =>
    rw [((adminReset_quiet ownerKey _).2 _ _ h).spent] at hspent
    cases hspent
  | maintain =>
    rw [((maintain_quiet _).2 _ _ h).spent] at hspent
    cases hspent
  | call call =>
    rcases (run_spends _).2 _ _ h with hread | ⟨_, _, hspends⟩
    · rw [hread.spent] at hspent
      cases hspent
    · obtain ⟨_, hspent', _, hfor⟩ := hspends.leaves steady
      rw [hspent] at hspent'
      obtain rfl := Option.some.inj hspent'
      exact ⟨call, rfl, hfor⟩

theorem Guarded.exec (steady : Steady svc) (h : Guarded svc events sys) :
    Guarded svc (events ++ [(exec svc action sys).1]) (exec svc action sys).2 := by
  have hkept : ∀ event ∈ events, ∀ call spent, event.Spent call spent →
      Covers call spent ∧
        Held svc (Syncsvc.exec svc action sys).2.data (Syncsvc.exec svc action sys).2.ticks spent := by
    intro event he call spent hs
    obtain ⟨hcovers, hheld⟩ := h.held event he call spent hs
    exact ⟨hcovers, hheld.exec steady⟩
  rcases exec_cases svc action sys with ⟨tx, hrun, hexec⟩ | ⟨e, tx, hrun, hexec⟩ <;>
    rw [hexec] at hkept ⊢
  · refine ⟨fun due hdue => ?_, fun event he call spent hs => ?_⟩
    · obtain ⟨hcall, hpast⟩ := h.due due hdue
      exact ⟨hcall, hpast.trans (steady.mono ((run_ticks _).1 _ _ hrun))⟩
    · rcases List.mem_append.mp he with he | he
      · exact hkept event he call spent hs
      · obtain rfl := List.mem_singleton.mp he
        rcases hs with hran | hrecovered
        · injection hran with haction _ hspent
          subst haction
          obtain ⟨spent', hspent', hfor⟩ := exec_spent steady hrun
          rw [hspent'] at hspent
          obtain rfl := Option.some.inj hspent
          exact ⟨hfor.covers, hfor.held⟩
        · cases hrecovered
  · refine ⟨fun due hdue => ?_, fun event he call spent hs => ?_⟩
    · have hold : ∀ due ∈ sys.recovering, (∃ call, due.1 = .call call ∧ Covers call due.2) ∧
          due.2.now ≤ svc.clock tx.ticks := by
        intro due hdue
        obtain ⟨hcall, hpast⟩ := h.due due hdue
        exact ⟨hcall, hpast.trans (steady.mono ((run_ticks _).2 _ _ hrun))⟩
      cases hspent : tx.spent with
      | none =>
        simp only [hspent, Option.elim_none] at hdue
        exact hold due hdue
      | some spent =>
        simp only [hspent, Option.elim_some, List.mem_cons] at hdue
        rcases hdue with rfl | hdue
        · obtain ⟨call, rfl, hfor⟩ := exec_due steady hrun hspent
          exact ⟨⟨call, rfl, hfor.covers⟩, hfor.past⟩
        · exact hold due hdue
    · rcases List.mem_append.mp he with he | he
      · exact hkept event he call spent hs
      · obtain rfl := List.mem_singleton.mp he
        rcases hs with hran | hrecovered
        · injection hran with _ herror _
          cases herror
        · cases hrecovered

theorem Guarded.recover {due : Action × SpentNonce}
    (h : Guarded svc events sys) (isDue : due ∈ sys.recovering) :
    Guarded svc (events ++ [(recover sys due).1]) (recover sys due).2 := by
  obtain ⟨⟨call, hcall, hcovers⟩, hpast⟩ := h.due due isDue
  refine ⟨fun d hd => h.due d (List.mem_of_mem_erase hd), fun event he call' spent hs => ?_⟩
  rcases List.mem_append.mp he with he | he
  · obtain ⟨hcovers', hheld⟩ := h.held event he call' spent hs
    exact ⟨hcovers', hheld.recovered hpast⟩
  · obtain rfl := List.mem_singleton.mp he
    rcases hs with hran | hrecovered
    · cases hran
    · injection hrecovered with haction hspent hfresh
      subst hspent
      rw [hcall] at haction
      obtain rfl := Action.call.inj haction
      refine ⟨hcovers, Or.inl ⟨_, ?_, le_refl _⟩⟩
      have hdata := (recordNonce_fresh (Prod.ext hfresh rfl : sys.data.recordNonce due.2.scope
        due.2.nonce due.2.now due.2.expires = (true, (recoverNonce sys.data due.2).2))).2
      show (recoverNonce sys.data due.2).2.nonces.lookup _ = _
      rw [hdata, AList.lookup_insert]

variable {P : Sys → Action → Prop}

theorem Run.guarded (steady : Steady svc) (run : Run svc P events sys) : Guarded svc events sys := by
  induction run with
  | start => exact ⟨fun _ hd => (by cases hd), fun _ he => (by cases he)⟩
  | act run action meets ih => exact ih.exec steady
  | recover run due isDue ih => exact ih.recover isDue
  | idle run same later ih =>
    refine ⟨fun due hd => ?_, fun event he call spent hs => ?_⟩
    · obtain ⟨hcall, hpast⟩ := ih.due due hd
      exact ⟨hcall, hpast.trans (steady.mono later)⟩
    · obtain ⟨hcovers, hheld⟩ := ih.held event he call spent hs
      refine ⟨hcovers, Held.later steady ?_ later⟩
      unfold Held at hheld ⊢
      rwa [← same.nonces.lookup]

/-! So nothing is accepted twice. -/

/-- **A replay is refused**: no call is accepted whose nonce, scope and timestamp are
    those of a call that spent its nonce before. -/
theorem replay_refused {call' : Call} {spent' : SpentNonce} (steady : Steady svc)
    (prompt : Prompt svc sys (.call call')) (covers : Covers call spent)
    (held : Held svc sys.data sys.ticks spent)
    (accepted : (exec svc (.call call') sys).1 = .ran (.call call') none (some spent'))
    (hscope : spent.scope = spent'.scope) (hnonce : call.request.nonce = call'.request.nonce) :
    call.request.timestamp ≠ call'.request.timestamp := by
  intro htimestamp
  unfold Prompt at prompt
  rcases exec_cases svc (.call call') sys with ⟨tx, hrun, hexec⟩ | ⟨e, tx, _, hexec⟩ <;>
    rw [hexec] at accepted prompt
  swap
  · injection accepted with _ herror _
    cases herror
  obtain ⟨_, _, _, a, b, hread, hverified, hquiet⟩ := (run_spends _).1 _ _ hrun
  injection accepted with _ _ hspent
  rw [hquiet.spent, hverified.spent] at hspent
  obtain rfl := Option.some.inj hspent
  -- the call is accepted before second `timestamp + 360`, until when the nonce is held
  have hearly : svc.clock (a.ticks + 2) < spent.expires := by
    have hticks := hverified.ticks
    have hquiet' := hquiet.ticks
    have hlast : svc.clock (a.ticks + 2) ≤ svc.clock (tx.ticks - 1) := steady.mono (by omega)
    have hcovers := covers.expires
    rw [htimestamp] at hcovers
    exact accepted_early (steady.epoch a.ticks) (RequestSignature.verify_skew hverified.signed).2
      (steady.mono hread.ticks) (hlast.trans prompt) hcovers
  rcases held with ⟨u, hu, hle⟩ | hexpired
  · have hfresh : u ≤ svc.clock (a.ticks + 2) := by
      refine hverified.fresh u ?_
      rw [hread.data, ← hnonce, ← covers.nonce]
      rw [hscope] at hu
      exact hu
    exact absurd (hle.trans hfresh) (not_le.mpr hearly)
  · have hpast : svc.clock sys.ticks ≤ svc.clock (a.ticks + 2) :=
      steady.mono (hread.ticks.trans (Nat.le_add_right _ _))
    exact absurd (hexpired.trans hpast) (not_le.mpr hearly)

/-- The later event accepts a request again: one with the scope, the nonce and the
    timestamp of a request that the earlier event accepted, or of a failed request
    whose nonce it recorded. -/
def Replays (earlier later : Event) : Prop :=
  ∃ call call' spent spent', earlier.Spent call spent ∧
    later = .ran (.call call') none (some spent') ∧ spent.scope = spent'.scope ∧
    call.request.nonce = call'.request.nonce ∧ call.request.timestamp = call'.request.timestamp

theorem Run.no_replay (steady : Steady svc) (run : Run svc (Prompt svc) events sys) :
    events.Pairwise fun earlier later => ¬Replays earlier later := by
  induction run with
  | start => exact .nil
  | act run action meets ih =>
    refine List.pairwise_append.mpr ⟨ih, List.pairwise_singleton _ _, fun earlier he later hl => ?_⟩
    obtain rfl := List.mem_singleton.mp hl
    rintro ⟨call, call', spent, spent', hs, hlater, hscope, hnonce, htimestamp⟩
    obtain ⟨hcovers, hheld⟩ := (run.guarded steady).held earlier he call spent hs
    have haction : action = .call call' := by
      rcases exec_cases svc action _ with ⟨_, _, hexec⟩ | ⟨_, _, _, hexec⟩ <;>
        rw [hexec] at hlater <;> injection hlater
    subst haction
    exact replay_refused steady meets hcovers hheld hlater hscope hnonce htimestamp
  | recover run due isDue ih =>
    refine List.pairwise_append.mpr ⟨ih, List.pairwise_singleton _ _, fun earlier he later hl => ?_⟩
    obtain rfl := List.mem_singleton.mp hl
    rintro ⟨_, _, _, _, _, hlater, _⟩
    cases hlater
  | idle run same later ih => exact ih

/-- Every accepted signed request was run from a state of the run. -/
theorem Run.accepted (run : Run svc P events sys) :
    ∀ call spent, Event.ran (.call call) none spent ∈ events → ∃ past before tx,
      Run svc P past before ∧ svc.run (.call call) ⟨before.data, before.ticks, none⟩ = .ok () tx ∧
        tx.spent = spent := by
  induction run with
  | start => exact fun _ _ he => (by cases he)
  | act run action meets ih =>
    intro call spent he
    rcases List.mem_append.mp he with he | he
    · exact ih call spent he
    · have hevent := List.mem_singleton.mp he
      rcases exec_cases svc action _ with ⟨tx, hrun, hexec⟩ | ⟨_, _, _, hexec⟩ <;>
        rw [hexec] at hevent <;> injection hevent with haction herror hspent
      · exact ⟨_, _, tx, run, haction ▸ hrun, hspent.symm⟩
      · cases herror
  | recover run due isDue ih =>
    intro call spent he
    rcases List.mem_append.mp he with he | he
    · exact ih call spent he
    · cases List.mem_singleton.mp he
  | idle run same later ih => exact ih

theorem Run.accepted_spent (steady : Steady svc) (run : Run svc P events sys) :
    ∀ call spent, Event.ran (.call call) none spent ∈ events →
      ∃ s, spent = some s ∧ s.nonce = call.request.nonce := by
  intro call spent he
  obtain ⟨_, _, _, _, hrun, rfl⟩ := run.accepted call spent he
  obtain ⟨s, hs, hfor⟩ := exec_spent steady hrun
  exact ⟨s, hs, hfor.covers.nonce⟩

/-- **A signed request takes effect at most once.** In every run under a steady clock
    whose operations are prompt, every accepted request has spent its nonce; and no
    request is accepted that was accepted before, or that failed before and had its
    nonce recorded. -/
theorem signed_request_once {events : List Event} (steady : Steady svc)
    (run : Run svc (Prompt svc) events sys) :
    (∀ call spent, Event.ran (.call call) none spent ∈ events →
      ∃ s, spent = some s ∧ s.nonce = call.request.nonce) ∧
    events.Pairwise fun earlier later => ¬Replays earlier later :=
  ⟨run.accepted_spent steady, run.no_replay steady⟩

namespace Demo

/-- A clock that reads `a` seconds at first, `b` from its reading `n` on, and `c` from
    its reading `m` on. -/
def stepping (n m : Nat) (a b c : Int) : Nat → Time := fun t =>
  (if t < n then a else if t < m then b else c) * second

theorem stepping_mono {n m : Nat} {a b c : Int} (hab : a ≤ b) (hbc : b ≤ c) :
    Monotone (stepping n m a b c) := by
  intro t t' ht
  have hle : (if t < n then a else if t < m then b else c) ≤
      if t' < n then a else if t' < m then b else c := by split_ifs <;> omega
  exact mul_le_mul_of_nonneg_right hle (by decide)

theorem still_steady (t : Nat) : Steady (service (still t)) where
  mono _ _ _ := le_refl _
  epoch _ := mul_nonneg (Int.natCast_nonneg t) (by decide)

def mark : Event → Option (Bytes × Bytes × Nat)
  | .ran (.call call) none (some spent) => some (spent.scope, spent.nonce, call.request.timestamp)
  | _ => none

/-- Device 1 creates the vault at `t`, resets it with a request of `r`, creates it
    again at `t'` and sends the same reset once more. -/
def restarts (t r t' : Nat) : List Action :=
  [.call (Demo.call 1 t 1 (.createVault (createEntry vaultID 1))), .call (Demo.call 1 r 2 (.reset 1)),
   .call (Demo.call 1 t' 3 (.createVault (createEntry vaultID 1))), .call (Demo.call 1 r 2 (.reset 1))]

/-- A checkpoint of device 1 observed at second 1660, in a request of second 1360. -/
def checkpointed : Action :=
  let unsigned : Checkpoint :=
    { version := versionV3, vaultID := vaultID, deviceID := deviceID 1, deviceListIndex := 1,
      deviceListDigest := (createEntry vaultID 1).digest toyCrypto, headerRevision := 0,
      headerDigest := [], observedAt := 1660, signature := [] }
  .call (Demo.call 1 1360 2
    (.putCheckpoint { unsigned with signature := signed 1 unsigned.signingPayload }))

/-- A wrong reset at second 1000 and the checkpoint at second 1060, too early for it,
    fail with the same nonce before the nonce of either is recovered. Then both
    recoveries run, the older first, and at second 1660 the checkpoint is sent again. -/
def race : List Event × Sys :=
  let svc := service (stepping 7 11 1000 1060 1660)
  let failed := execAll svc (created ++ [.call (Demo.call 1 1000 2 (.reset 7)), checkpointed]) start
  let first := recoverAt 1 failed.2
  let second := recoverAt 0 first.2
  let last := execAll svc [checkpointed] second.2
  (failed.1 ++ first.1 ++ second.1 ++ last.1, last.2)

theorem race_run : Run (service (stepping 7 11 1000 1060 1660)) Any race.1 race.2 :=
  execAll_run _ (fun _ _ _ => trivial)
    (recoverAt_run _ (recoverAt_run _ (execAll_start _ _)))

/-- **A nondecreasing clock alone is not enough.** The same reset is accepted twice if
    the clock jumps between two readings of one operation, or if it reads a time
    before 1970; and a request that failed and was recovered is accepted later if
    another recovery had recorded the nonce for a shorter time. -/
theorem request_accepted_again : (Monotone (stepping 7 12 1000 1600 1660) ∧
      Run (service (stepping 7 12 1000 1600 1660)) Any
        (execAll (service (stepping 7 12 1000 1600 1660)) (restarts 1000 1300 1600) start).1
        (execAll (service (stepping 7 12 1000 1600 1660)) (restarts 1000 1300 1600) start).2 ∧
      ¬((execAll (service (stepping 7 12 1000 1600 1660)) (restarts 1000 1300 1600)
        start).1.filterMap mark).Nodup) ∧
    (Monotone (stepping 7 7 (-700) 0 0) ∧
      Run (service (stepping 7 7 (-700) 0 0)) Any
        (execAll (service (stepping 7 7 (-700) 0 0)) (restarts 0 0 0) start).1
        (execAll (service (stepping 7 7 (-700) 0 0)) (restarts 0 0 0) start).2 ∧
      ¬((execAll (service (stepping 7 7 (-700) 0 0)) (restarts 0 0 0) start).1.filterMap
        mark).Nodup) ∧
    (Monotone (stepping 7 11 1000 1060 1660) ∧
      Run (service (stepping 7 11 1000 1060 1660)) Any race.1 race.2 ∧
      race.1.map Event.accepted = [true, false, false, false, false, true]) :=
  ⟨⟨stepping_mono (by decide) (by decide), execAll_start _ _, by decide +kernel⟩,
    ⟨stepping_mono (by decide) (by decide), execAll_start _ _, by decide +kernel⟩,
    stepping_mono (by decide) (by decide), race_run, by decide +kernel⟩

theorem still_prompt (t : Nat) (sys : Sys) (action : Action) :
    Prompt (service (still t)) sys action :=
  le_add_of_nonneg_right (by decide)

theorem signed_request_once_restarts :
    (execAll (service (still 1000)) (restarts 1000 1000 1000) start).1.Pairwise
      fun earlier later => ¬Replays earlier later := by
  have first : Run (service (still 1000)) (Prompt (service (still 1000))) [] start := .start
  have run := execAll_run (restarts 1000 1000 1000) (fun sys action _ => still_prompt 1000 sys action)
    first
  exact (signed_request_once (still_steady 1000) run).2

end Demo

end Sesame.Syncsvc
