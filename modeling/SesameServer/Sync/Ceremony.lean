import SesameServer.Sync.Pairings

/- The order of a pairing ceremony.

   An approval is the last of four steps that several parties take, and between any
   two of them the pairing can be overwritten, cancelled, purged or wiped by a rekey.
   `Offered`, `Answered` and `Confirmed` say what must have happened for a pairing to
   be where it is: a step of the past, since which the very row has been stored, and
   before it the stage it came from.

   1. `Run.pairing_cases` — a stored pairing was there before the step, or was
      offered, answered or confirmed by it.
   2. `Run.stage` — so in every run each pairing has its ceremony behind it.
   3. `approve_ends_ceremony` — and an approval has all of it. -/
namespace Sesame.Syncsvc
open Syncproto Outcome State Service History

variable {svc : Service} {v d : Bytes} {p : Pairing} {L L' : Ledger}

/-- The vault is stored and has the pairing for the device. -/
def Pending (v d : Bytes) (p : Pairing) (sys : Sys) : Prop :=
  sys.data.Stored v ∧ sys.data.pairing v d = .ok p

def Accepts (call : Call) (shown : List Event) : Prop :=
  ∃ spent, shown = [.ran (.call call) none spent]

/-- `BeginPairing` stored the pairing in this step, for the caller's token and with
    the offered keys, under a request signed with the offered key. -/
def OfferStep (svc : Service) (d : Bytes) (p : Pairing) (_ : List Event) (s : Sys)
    (shown : List Event) (s' : Sys) : Prop :=
  ∃ caller request offer, Accepts ⟨caller, request, .beginPairing offer⟩ shown ∧
    offer.deviceID = d ∧ offer.signingKey = p.signingKey ∧ offer.packageKey = p.packageKey ∧
    caller.tokenDeviceID = p.tokenDeviceID ∧ p.state = .offered ∧
    SignedWith svc p.signingKey caller request s.ticks s'.ticks ∧
    ∃ t, s.ticks ≤ t ∧ t < s'.ticks ∧ p.expiresAt = svc.clock t + pairingLifetime

/-- The pairing was offered, and has been stored since. -/
def Offered (svc : Service) (v d : Bytes) (p : Pairing) : List Event → Sys → Prop :=
  Since (Next svc) start (OfferStep svc d p) (Pending v d p)

/-- The caller's token belongs to a member that is activated in the vault's epoch. -/
def ByMember (svc : Service) (v : Bytes) (caller : Caller) (s : Sys) : Prop :=
  ∃ vault list, ∃ row ∈ s.data.devicesOf v, s.data.vaults.lookup v = some vault ∧
    vault.ownerKey = caller.ownerKey ∧ row.tokenDeviceID = caller.tokenDeviceID ∧
    row.state = .approved ∧ row.activatedEpoch = vault.epoch ∧
    loadList svc.crypto s.data v = .ok list ∧ row.deviceID ∈ list.current.map (·.deviceID)

/-- `AnswerPairing` by an activated member turned the offered pairing into this one. -/
def AnswerStep (svc : Service) (v d : Bytes) (p : Pairing) (before : List Event) (s : Sys)
    (shown : List Event) (s' : Sys) : Prop :=
  ∃ caller request message p₀, Accepts ⟨caller, request, .answerPairing d message⟩ shown ∧
    Offered svc v d p₀ before s ∧ p = { p₀ with answer := message, state := .answered } ∧
    ByMember svc v caller s ∧ InTime svc s.ticks s'.ticks p

def Answered (svc : Service) (v d : Bytes) (p : Pairing) : List Event → Sys → Prop :=
  Since (Next svc) start (AnswerStep svc v d p) (Pending v d p)

/-- `ConfirmPairing` by the pairing's token, under a request signed with its key,
    turned the answered pairing into this one. -/
def ConfirmStep (svc : Service) (v d : Bytes) (p : Pairing) (before : List Event) (s : Sys)
    (shown : List Event) (s' : Sys) : Prop :=
  ∃ caller request message p₁, Accepts ⟨caller, request, .confirmPairing message⟩ shown ∧
    Answered svc v d p₁ before s ∧ p = { p₁ with confirm := message, state := .confirmed } ∧
    caller.tokenDeviceID = p.tokenDeviceID ∧ InTime svc s.ticks s'.ticks p ∧
    SignedWith svc p.signingKey caller request s.ticks s'.ticks

def Confirmed (svc : Service) (v d : Bytes) (p : Pairing) : List Event → Sys → Prop :=
  Since (Next svc) start (ConfirmStep svc v d p) (Pending v d p)

/-- The pairing has come to its state by the steps of the ceremony. -/
def Stage (svc : Service) (v d : Bytes) (p : Pairing) (events : List Event) (sys : Sys) : Prop :=
  match p.state with
  | .offered => Offered svc v d p events sys
  | .answered => Answered svc v d p events sys
  | .confirmed => Confirmed svc v d p events sys

variable {sys : Sys} {events : List Event}

theorem pending_iff :
    Pending v d p sys ↔ ∃ L, sys.data.ledger v = some L ∧ L.pairing d = some p := by
  constructor
  · rintro ⟨hstored, hp⟩
    obtain ⟨vault, hvault⟩ := Option.isSome_iff_exists.mp hstored
    have hL := ledger_of_lookup hvault
    exact ⟨_, hL, (pairing_ledger hL).mp hp⟩
  · rintro ⟨L, hL, hp⟩
    exact ⟨stored_of_ledger hL, (pairing_ledger hL).mpr hp⟩

/-! Where a pairing comes from. -/

/-- A move that is no step of the ceremony leaves a pairing as it was or deletes it. -/
theorem Move.pairing_kept {call : Call} (move : Move svc L call L')
    (hbegin : ∀ offer, call.op ≠ .beginPairing offer)
    (hanswer : ∀ d message, call.op ≠ .answerPairing d message)
    (hconfirm : ∀ message, call.op ≠ .confirmPairing message) (hp : L'.pairing d = some p) :
    L.pairing d = some p := by
  have hdelete : ∀ d₀, Function.update L.pairing d₀ none d = some p → L.pairing d = some p := by
    intro d₀ h
    rw [Function.update_apply] at h
    split at h
    · cases h
    · exact h
  cases move with
  | offered => exact absurd rfl (hbegin _)
  | answered => exact absurd rfl (hanswer _ _)
  | confirmed => exact absurd rfl (hconfirm _)
  | cancelled => exact hdelete _ hp
  | approved => exact hdelete _ hp
  | rekeyed => cases hp
  | activated | upgraded | uploaded | checkpointed => exact hp

/-- **Where a stored pairing comes from**: it was there before the step, or the step
    offered, answered or confirmed it. -/
theorem Run.pairing_cases {action : Action} {tx : Tx} (run : Run svc Any events sys)
    (h : svc.run action ⟨sys.data, sys.ticks, none⟩ = .ok () tx) (hL' : tx.data.ledger v = some L')
    (hp : L'.pairing d = some p) : (∃ L, sys.data.ledger v = some L ∧ L.pairing d = some p) ∨
    (∃ caller request offer L previous, action = .call ⟨caller, request, .beginPairing offer⟩ ∧
      Begins svc caller request offer L previous ⟨sys.data, sys.ticks, none⟩ tx ∧
      v = L.vault.id ∧ d = offer.deviceID ∧
      p = offeredPairing L.vault caller offer (svc.clock (sys.ticks + 4))) ∨
    (∃ caller request message L actor p₀,
      action = .call ⟨caller, request, .answerPairing d message⟩ ∧
      Answers svc caller d message L actor p₀ ⟨sys.data, sys.ticks, none⟩ tx ∧ v = L.vault.id ∧
      p = { p₀ with answer := message, state := .answered }) ∨
    ∃ caller request message L actor p₁,
      action = .call ⟨caller, request, .confirmPairing message⟩ ∧
      Confirms svc caller request message L actor p₁ ⟨sys.data, sys.ticks, none⟩ tx ∧
      v = L.vault.id ∧ d = p₁.deviceID ∧ p = { p₁ with confirm := message, state := .confirmed } := by
  -- a write at `d₀` of the vault `w`: the row is the one written, or was there before
  have hwrite : ∀ {w d₀ : Bytes} {M : Ledger} {q : Pairing}, sys.data.ledger w = some M →
      At sys.data w (some { M with pairing := Function.update M.pairing d₀ (some q) }) tx.data →
      (v = w ∧ d = d₀ ∧ p = q) ∨ ∃ L, sys.data.ledger v = some L ∧ L.pairing d = some p := by
    intro w d₀ M q hM hat
    by_cases hv : v = w
    · rw [hv, hat.here] at hL'
      rw [← Option.some.inj hL'] at hp
      simp only [Function.update_apply] at hp
      split at hp
      · next hd => exact Or.inl ⟨hv, hd, (Option.some.inj hp).symm⟩
      · exact Or.inr ⟨M, by rw [hv]; exact hM, hp⟩
    · rw [hat.ledger, Function.update_of_ne hv] at hL'
      exact Or.inr ⟨L', hL', hp⟩
  have hchange := run.change h v
  rw [hL'] at hchange
  generalize hbefore : sys.data.ledger v = before at hchange
  by_cases hbegin : ∃ caller request offer, action = .call ⟨caller, request, .beginPairing offer⟩
  · obtain ⟨caller, request, offer, rfl⟩ := hbegin
    obtain ⟨M, previous, b⟩ := beginPairing_ok (by exact run.wf) h
    rw [b.ledger, Function.update_apply] at hL'
    split at hL'
    · next hv =>
      rw [← Option.some.inj hL'] at hp
      simp only [Function.update_apply] at hp
      split at hp
      · next hd =>
        exact Or.inr (Or.inl ⟨caller, request, offer, M, previous, rfl, b, hv, hd,
          (Option.some.inj hp).symm⟩)
      · have hleft := (Option.filter_eq_some_iff.mp hp).1
        simp only [Ledger.withdraw] at hleft
        split at hleft
        · cases hleft
        · refine Or.inl ⟨M, ?_, hleft⟩
          rw [← hbefore, hv]
          exact b.stored
    · obtain ⟨L₀, h₀, rfl⟩ := Option.map_eq_some_iff.mp hL'
      exact Or.inl ⟨L₀, by rw [← hbefore]; exact h₀, (Option.filter_eq_some_iff.mp hp).1⟩
  by_cases hanswer : ∃ caller request d₀ message,
      action = .call ⟨caller, request, .answerPairing d₀ message⟩
  · obtain ⟨caller, request, d₀, message, rfl⟩ := hanswer
    obtain ⟨M, actor, p₀, a⟩ := answerPairing_ok (by exact run.wf) h
    rcases hwrite a.stored a.effect with ⟨hv, rfl, hrow⟩ | hold
    · exact Or.inr (Or.inr (Or.inl ⟨caller, request, message, M, actor, p₀, rfl, a, hv, hrow⟩))
    · rw [hbefore] at hold
      exact Or.inl hold
  by_cases hconfirm : ∃ caller request message,
      action = .call ⟨caller, request, .confirmPairing message⟩
  · obtain ⟨caller, request, message, rfl⟩ := hconfirm
    obtain ⟨M, actor, p₁, c⟩ := confirmPairing_ok (by exact run.wf) h
    rcases hwrite c.stored c.effect with ⟨hv, hd, hrow⟩ | hold
    · exact Or.inr (Or.inr (Or.inr ⟨caller, request, message, M, actor, p₁, rfl, c, hv, hd, hrow⟩))
    · rw [hbefore] at hold
      exact Or.inl hold
  cases hchange with
  | same => exact Or.inl ⟨L', rfl, hp⟩
  | expired => exact Or.inl ⟨_, rfl, (Option.filter_eq_some_iff.mp hp).1⟩
  | opened => cases hp
  | begun => exact absurd ⟨_, _, _, rfl⟩ hbegin
  | @moved call L _ move =>
    refine Or.inl ⟨L, rfl, move.pairing_kept (fun offer he => hbegin ?_)
      (fun d₀ message he => hanswer ?_) (fun message he => hconfirm ?_) hp⟩
    · exact ⟨call.caller, call.request, offer, by rw [← he]⟩
    · exact ⟨call.caller, call.request, d₀, message, by rw [← he]⟩
    · exact ⟨call.caller, call.request, message, by rw [← he]⟩

/-! The ceremony behind every pairing. -/

theorem Stage.later {shown : List Event} {s s' : Sys} (h : Stage svc v d p events s)
    (next : Next svc s shown s') (holds : Pending v d p s') :
    Stage svc v d p (events ++ shown) s' := by
  unfold Stage at h ⊢
  cases hstate : p.state with
  | offered | answered | confirmed =>
    rw [hstate] at h
    exact Since.later h next holds

/-- Who answers a pairing is a member that is activated at the time. -/
theorem Answers.byMember {caller : Caller} {message : Bytes}
    {actor : Actor} {tx : Tx} (run : Run svc Any events sys)
    (a : Answers svc caller d message L actor p ⟨sys.data, sys.ticks, none⟩ tx) :
    ByMember svc L.vault.id caller sys := by
  obtain ⟨hown, hstate, hepoch⟩ := requireActivated_ok a.activated
  obtain ⟨hrow, htoken⟩ := a.acts.device hown
  obtain ⟨list, agrees⟩ := run.agrees.2 _ L a.stored
  refine ⟨L.vault, list, actor.device, (mem_devicesOf run.wf a.stored).mpr hrow,
    (ledger_some a.stored).1, ?_, htoken, hstate, ?_, ?_, agrees.current_iff.mpr ⟨_, hrow, hstate⟩⟩
  · rw [a.acts.vault, a.acts.owner]
  · rw [a.acts.vault, hepoch]
  · rw [loadList_ledger a.stored]
    exact (loads_iff agrees.verified).mpr rfl

/-- **Every pairing has its ceremony behind it.** -/
theorem Run.stage (run : Run svc Any events sys) :
    ∀ v d p, Pending v d p sys → Stage svc v d p events sys := by
  refine run.path.always (Q := fun events sys => ∀ v d p, Pending v d p sys →
    Stage svc v d p events sys) ?_ ?_
  · rintro v d p ⟨hstored, _⟩
    cases hstored
  · intro events s shown s' path ih next _ v d p hp
    have run : Run svc Any events s := by simpa using Run.start.extend path
    rcases next.cases run.wf with ⟨hledger, _⟩ | ⟨action, tx, hrun, rfl, rfl⟩
    · refine (ih v d p ?_).later next hp
      rw [pending_iff] at hp ⊢
      rwa [← hledger]
    · obtain ⟨L', hL', hrow⟩ := pending_iff.mp hp
      rcases run.pairing_cases hrun hL' hrow with hold |
        ⟨caller, request, offer, L, previous, rfl, b, rfl, rfl, rfl⟩ |
        ⟨caller, request, message, L, actor, p₀, rfl, a, rfl, rfl⟩ |
        ⟨caller, request, message, L, actor, p₁, rfl, c, rfl, rfl, rfl⟩
      · exact (ih v d p (pending_iff.mpr hold)).later next hp
      · have hticks : tx.ticks = s.ticks + 5 := b.ticks
        refine Since.now path next ⟨caller, request, offer, ⟨tx.spent, rfl⟩, rfl, rfl, rfl, rfl, rfl,
          ⟨s.ticks, Nat.le_refl _, ?_, b.signed⟩, s.ticks + 4, ?_, ?_, rfl⟩ hp
        · show s.ticks < tx.ticks
          omega
        · omega
        · show s.ticks + 4 < tx.ticks
          omega
      · have hbefore := ih L.vault.id d p₀ (pending_iff.mpr ⟨L, a.stored, a.found⟩)
        unfold Stage at hbefore
        rw [a.state] at hbefore
        exact Since.now path next ⟨caller, request, message, p₀, ⟨tx.spent, rfl⟩, hbefore, rfl,
          a.byMember run, a.live⟩ hp
      · obtain ⟨hfound, htoken, _⟩ := c.acts.pairing p₁ c.own
        have hbefore := ih L.vault.id p₁.deviceID p₁ (pending_iff.mpr ⟨L, c.stored, hfound⟩)
        unfold Stage at hbefore
        rw [c.state] at hbefore
        exact Since.now path next ⟨caller, request, message, p₁, ⟨tx.spent, rfl⟩, hbefore, rfl,
          htoken.symm, c.live, c.signed⟩ hp

/-- **An approval ends a ceremony.** In every run, when `Approve` succeeds for a
    device, the vault's pairing for it carries the very keys of the entry and is
    `Confirmed`: it was confirmed by its token, before that answered by an activated
    member, before that offered by its token, each step in time and the row stored
    without a change in between. The approval too is in time, and the new device
    belongs to that token. -/
theorem approve_ends_ceremony {events : List Event} {sys : Sys} (run : Run svc Any events sys)
    {caller : Caller} {request : SignedRequest} {entry : DeviceListEntry} {pkg : KeyPackageV3}
    (accepted : (exec svc (.call ⟨caller, request, .approve entry pkg⟩) sys).1.accepted = true) :
    ∃ p, Confirmed svc entry.vaultID entry.subjectDeviceID p events sys ∧
      p.signingKey = entry.subjectSigningKey ∧ p.packageKey = entry.subjectPackageKey ∧
      InTime svc sys.ticks (exec svc (.call ⟨caller, request, .approve entry pkg⟩) sys).2.ticks p ∧
      ∃ row, (exec svc (.call ⟨caller, request, .approve entry pkg⟩) sys).2.data.device
          entry.vaultID entry.subjectDeviceID = .ok row ∧
        row.tokenDeviceID = p.tokenDeviceID ∧ row.state = .approved ∧
        row.signingKey = entry.subjectSigningKey ∧ row.packageKey = entry.subjectPackageKey := by
  rcases exec_cases svc (.call ⟨caller, request, .approve entry pkg⟩) sys with
    ⟨tx, hrun, hexec⟩ | ⟨e, tx, hrun, hexec⟩
  · rw [hexec]
    have happrove : svc.approve caller request entry pkg ⟨sys.data, sys.ticks, none⟩ = .ok () tx :=
      hrun
    rw [approve_split] at happrove
    obtain ⟨⟨actor, p⟩, tx₁, hchecks, hwrites⟩ := bind_ok.mp happrove
    obtain ⟨L, may⟩ := approveChecks_ok (by exact run.wf) hchecks
    obtain ⟨hat, hticks, _⟩ := approveWrites_ok may hwrites
    obtain ⟨_, happends⟩ := may.appends
    have hstored : sys.data.ledger L.vault.id = some L := by rw [← may.stored, may.ledger]
    have hstage := run.stage L.vault.id entry.subjectDeviceID p
      (pending_iff.mpr ⟨L, hstored, may.found⟩)
    unfold Stage at hstage
    rw [may.state] at hstage
    rw [happends.vault]
    obtain ⟨t, hle, hlt, hlive⟩ := may.live
    refine ⟨p, hstage, may.keys.1, may.keys.2, ⟨t, hle, hlt.trans hticks, hlive⟩,
      approvedDevice L.vault entry p (svc.clock tx₁.ticks), ?_, rfl, rfl, rfl, rfl⟩
    rw [device_ledger hat.here]
    exact Function.update_self ..
  · rw [hexec] at accepted
    cases accepted

namespace Demo

/-- Device 2 has been offered, answered and confirmed, and awaits its approval. -/
def awaiting : List Action := paired.take 4

theorem approve_ends_ceremony_paired : ∃ p, Confirmed (service (still 1000)) vaultID (deviceID 2) p
        (execAll (service (still 1000)) awaiting start).1
        (execAll (service (still 1000)) awaiting start).2 ∧
      p.signingKey = signingKey 2 ∧
      ∃ row, (exec (service (still 1000)) (.call (call 1 1000 5 (.approve addEntry addPackage)))
        (execAll (service (still 1000)) awaiting start).2).2.data.device vaultID (deviceID 2) =
          .ok row ∧ row.tokenDeviceID = p.tokenDeviceID := by
  have haccepted : (exec (service (still 1000)) (.call (call 1 1000 5 (.approve addEntry addPackage)))
      (execAll (service (still 1000)) awaiting start).2).1.accepted = true := by decide +kernel
  obtain ⟨p, hconfirmed, hkey, _, _, row, hrow, htoken, _⟩ :=
    approve_ends_ceremony (execAll_start _ awaiting) haccepted
  exact ⟨p, hconfirmed, hkey, row, hrow, htoken⟩

end Demo

end Sesame.Syncsvc
