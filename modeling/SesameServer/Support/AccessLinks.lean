import SesameServer.Lib.Locking
import SesameServer.Support.Tickets

/- The access links of a support ticket, under every interleaving.

   Every call that writes a ticket or its links takes the lock of the ticket first: a lock on a
   ticket therefore protects the row and which of its links are live.

   1. `protection` — what the row locks protect.
   2. `Kept`, `Disciplined` — a ticket has at most one live link, and none while it is closed or
      attached to an account.
   3. `triple_program` — every call keeps that; `triple_resolves` — a call that resolves a link
      leaves it unrevoked.
   4. `access_links_exclusive` — so it holds at any time, and a revoked link never resolves. -/
namespace Sesame.Support
open ReadCommitted ReadCommitted.Protection

/-! What a change does to a row. -/

/-- A link of the ticket that is not revoked. -/
def Tables.Live (t : Tables) (id tokenHash : Bytes) : Prop :=
  ∃ link, t.links.lookup tokenHash = some link ∧ link.liveFor id = true

def Tables.Unrevoked (t : Tables) (tokenHash : Bytes) : Prop :=
  ∃ link, t.links.lookup tokenHash = some link ∧ link.revokedAt = none

def Tables.Revoked (t : Tables) (tokenHash : Bytes) : Prop :=
  ∃ link, t.links.lookup tokenHash = some link ∧ link.revokedAt ≠ none

theorem AccessLink.liveFor_iff {link : AccessLink} {id : Bytes} :
    link.liveFor id = true ↔ link.ticketID = id ∧ link.revokedAt = none := by
  simp [AccessLink.liveFor]

def Change.onTicket (c : Change) (id : Bytes) (old : Option Ticket) : Option Ticket :=
  match c with
  | .insertTicket k ticket => if id = k then some (old.getD ticket) else old
  | .updateTicket k set => if id = k then old.map set else old
  | _ => old

def Change.onLink (c : Change) (tokenHash : Bytes) (old : Option AccessLink) : Option AccessLink :=
  match c with
  | .insertLink k link => if tokenHash = k then some (old.getD link) else old
  | .revokeLinks id found now => old.map fun link =>
      if found.contains tokenHash && link.liveFor id then { link with revokedAt := some now } else link
  | .useLink k now => old.map fun link =>
      if tokenHash == k then { link with lastUsedAt := some now } else link
  | _ => old

theorem lookup_insert_if_absent {ν : Type} (t : Table Bytes ν) (k k' : Bytes) (v : ν) :
    (if (t.lookup k).isSome then t else t.insert k v).lookup k' =
      if k' = k then some ((t.lookup k').getD v) else t.lookup k' := by
  by_cases hk : k' = k
  · subst hk
    cases h : t.lookup k' with
    | none => simp
    | some w => simp [h]
  · rw [if_neg hk]
    split
    · rfl
    · rw [Table.lookup_insert_eq, if_neg hk]

theorem Change.lookup_tickets (c : Change) (t : Tables) (id : Bytes) :
    (c.apply t).tickets.lookup id = c.onTicket id (t.tickets.lookup id) := by
  cases c with
  | insertTicket k ticket =>
    simp only [apply, onTicket, ← lookup_insert_if_absent]
    split <;> rfl
  | updateTicket k set =>
    simp only [apply, onTicket, Table.lookup_updateWhere, beq_iff_eq]
    split
    · rfl
    · exact Option.map_id'
  | insertLink k link =>
    simp only [apply, onTicket]
    split <;> rfl
  | revokeLinks | useLink => rfl

theorem Change.lookup_links (c : Change) (t : Tables) (tokenHash : Bytes) :
    (c.apply t).links.lookup tokenHash = c.onLink tokenHash (t.links.lookup tokenHash) := by
  cases c with
  | insertLink k link =>
    simp only [apply, onLink, ← lookup_insert_if_absent]
    split <;> rfl
  | insertTicket k ticket =>
    simp only [apply, onLink]
    split <;> rfl
  | revokeLinks id found now | useLink k now => exact Table.lookup_updateWhere _ _ _ _
  | updateTicket => rfl

/-- A change makes a link live by its insertion, and stops it by its revocation. -/
theorem Change.live_apply (c : Change) (t : Tables) (id tokenHash : Bytes) :
    (c.apply t).Live id tokenHash ↔ match c with
      | .insertLink k link => t.Live id tokenHash ∨
          tokenHash = k ∧ t.links.lookup k = none ∧ link.liveFor id = true
      | .revokeLinks id' found _ => t.Live id tokenHash ∧ ¬(id = id' ∧ tokenHash ∈ found)
      | _ => t.Live id tokenHash := by
  unfold Tables.Live
  rw [c.lookup_links t tokenHash]
  cases c with
  | insertTicket | updateTicket => rfl
  | insertLink k link =>
    by_cases hk : tokenHash = k
    · subst hk
      cases h : t.links.lookup tokenHash <;> simp [onLink, h]
    · simp [onLink, hk]
  | revokeLinks id' found now =>
    cases h : t.links.lookup tokenHash with
    | none => simp [onLink]
    | some link =>
      simp only [onLink, Option.map_some, Option.some.injEq, exists_eq_left']
      by_cases hf : tokenHash ∈ found
      · by_cases hl : link.liveFor id' = true
        · have : link.liveFor id = true → id = id' := fun h =>
            (AccessLink.liveFor_iff.mp h).1.symm.trans (AccessLink.liveFor_iff.mp hl).1
          simp only [List.contains_eq_mem, hf, hl, decide_true, Bool.and_self, if_true]
          simp only [AccessLink.liveFor_iff, reduceCtorEq, and_false, false_iff, not_and, and_true,
            not_not]
          intro h
          exact this (AccessLink.liveFor_iff.mpr h)
        · simp only [hl, Bool.and_false, Bool.false_eq_true, if_false, hf, and_true, iff_self_and]
          rintro h rfl
          exact hl h
      · simp [hf]
  | useLink k now =>
    cases h : t.links.lookup tokenHash with
    | none => simp [onLink]
    | some link =>
      simp only [onLink, Option.map_some, Option.some.injEq, exists_eq_left']
      split <;> rfl

variable {t s : Tables}

variable {tokenHash : Bytes} {k : RowLock} {c : Change}

theorem Change.revoked_apply (c : Change) (h : t.Revoked tokenHash) :
    (c.apply t).Revoked tokenHash := by
  obtain ⟨link, hlink, hrevoked⟩ := h
  unfold Tables.Revoked
  rw [c.lookup_links, hlink]
  cases c with
  | insertTicket | updateTicket => exact ⟨link, rfl, hrevoked⟩
  | insertLink k new =>
    refine ⟨link, ?_, hrevoked⟩
    simp only [onLink, Option.getD_some]
    split <;> rfl
  | revokeLinks id found now =>
    refine ⟨_, rfl, ?_⟩
    dsimp only
    split
    · exact Option.some_ne_none _
    · exact hrevoked
  | useLink k now =>
    refine ⟨_, rfl, ?_⟩
    dsimp only
    split <;> exact hrevoked

theorem applyAll_revoked {changes : List Change} (h : t.Revoked tokenHash) :
    (applyAll Change.apply changes t).Revoked tokenHash :=
  applyAll_keeps Change.apply (P := fun t => t.Revoked tokenHash) (fun c _ _ => c.revoked_apply) h

/-! What the locks protect. -/

def RowLock.Same (k : RowLock) (s t : Tables) : Prop :=
  match k with
  | .ticket id => s.tickets.lookup id = t.tickets.lookup id ∧
      ∀ tokenHash, s.Live id tokenHash ↔ t.Live id tokenHash
  | .link tokenHash => s.links.lookup tokenHash = t.links.lookup tokenHash

def Change.Touches (c : Change) (k : RowLock) : Prop :=
  match c with
  | .insertTicket id _ => k = .ticket id
  | .updateTicket id _ => k = .ticket id
  | .insertLink tokenHash link => k = .ticket link.ticketID ∨ k = .link tokenHash
  | .revokeLinks id found _ => k = .ticket id ∨ ∃ tokenHash ∈ found, k = .link tokenHash
  | .useLink tokenHash _ => k = .link tokenHash

theorem Change.same_congr (c : Change) (touched : ∀ l, c.Touches l → l.Same s t) (h : k.Same s t) :
    k.Same (c.apply s) (c.apply t) := by
  cases k with
  | link tokenHash =>
    change _ = _ at h
    change _ = _
    rw [c.lookup_links, c.lookup_links, h]
  | ticket id =>
    obtain ⟨hrow, hlive⟩ := h
    refine ⟨by rw [c.lookup_tickets, c.lookup_tickets, hrow], fun tokenHash => ?_⟩
    rw [c.live_apply, c.live_apply]
    cases c with
    | insertTicket | updateTicket | useLink => exact hlive tokenHash
    | revokeLinks => simp only [hlive tokenHash]
    | insertLink k link =>
      have hk : s.links.lookup k = t.links.lookup k := touched (.link k) (.inr rfl)
      simp only [hlive tokenHash, hk]

theorem Change.same_frame (c : Change) (t : Tables) (h : ¬c.Touches k) : k.Same t (c.apply t) := by
  cases k with
  | link tokenHash =>
    change _ = _
    rw [c.lookup_links]
    cases c with
    | insertTicket | updateTicket => rfl
    | insertLink k link =>
      have hk : tokenHash ≠ k := fun hk => h (.inr (hk ▸ rfl))
      simp [onLink, hk]
    | revokeLinks id found now =>
      have hf : tokenHash ∉ found := fun hf => h (.inr ⟨tokenHash, hf, rfl⟩)
      simp [onLink, hf]
    | useLink k now =>
      have hk : tokenHash ≠ k := fun hk => h (hk ▸ rfl)
      simp [onLink, hk]
  | ticket id =>
    refine ⟨?_, fun tokenHash => ?_⟩
    · rw [c.lookup_tickets]
      cases c with
      | insertTicket k ticket | updateTicket k set =>
        have hk : id ≠ k := fun hk => h (hk ▸ rfl)
        simp [onTicket, hk]
      | insertLink | revokeLinks | useLink => rfl
    · rw [c.live_apply]
      cases c with
      | insertTicket | updateTicket | useLink => exact Iff.rfl
      | insertLink k link =>
        have hk : ¬link.liveFor id = true := fun hl =>
          h (.inl (by rw [(AccessLink.liveFor_iff.mp hl).1]))
        simp [hk]
      | revokeLinks id' found now =>
        have hk : id ≠ id' := fun hk => h (.inl (hk ▸ rfl))
        simp [hk]

theorem RowLock.Same.trans {u : Tables} (h : k.Same s t) (h' : k.Same t u) : k.Same s u := by
  cases k with
  | link tokenHash => exact Eq.trans (b := t.links.lookup tokenHash) h h'
  | ticket id => exact ⟨h.1.trans h'.1, fun tokenHash => (h.2 tokenHash).trans (h'.2 tokenHash)⟩

def protection (lower : Bytes → Bytes) : Protection (engine lower) where
  same := RowLock.Same
  touches := Change.Touches
  refl k s := by
    cases k with
    | link => exact rfl
    | ticket => exact ⟨rfl, fun _ => Iff.rfl⟩
  trans := RowLock.Same.trans
  congr c := c.same_congr
  frame t h := Change.same_frame _ t h
  exclusive _ := beq_self_eq_true _

/-! The invariant. -/

def Ticket.Shut (ticket : Ticket) : Prop := ticket.status = .closed ∨ ticket.accountID ≠ none

def Open (id : Bytes) (t : Tables) : Prop := ∃ row, t.tickets.lookup id = some row ∧ ¬row.Shut

/-- At most one link of the ticket is live, and one is only while the ticket is open. -/
structure Kept (t : Tables) (id : Bytes) : Prop where
  one : ∀ {a b}, t.Live id a → t.Live id b → a = b
  opened : ∀ {a}, t.Live id a → Open id t

def Disciplined (t : Tables) : Prop := ∀ id, Kept t id

/-- It holds of every ticket but perhaps this one. -/
def OthersKept (id : Bytes) (t : Tables) : Prop := ∀ id', id' ≠ id → Kept t id'

theorem Kept.congr {id : Bytes} (h : Kept s id) (same : RowLock.Same (.ticket id) s t) :
    Kept t id where
  one ha hb := h.one ((same.2 _).mpr ha) ((same.2 _).mpr hb)
  opened ha := by
    obtain ⟨row, hrow, hopen⟩ := h.opened ((same.2 _).mpr ha)
    exact ⟨row, same.1.symm.trans hrow, hopen⟩

theorem Kept.of_bare {id : Bytes} (h : ∀ a, ¬t.Live id a) : Kept t id where
  one ha := absurd ha (h _)
  opened ha := absurd ha (h _)

theorem OthersKept.apply {id : Bytes} (h : OthersKept id t)
    (only : ∀ id', c.Touches (.ticket id') → id' = id) : OthersKept id (c.apply t) :=
  fun id' hne => (h id' hne).congr (c.same_frame t fun htouch => hne (only id' htouch))

theorem Disciplined.others (h : Disciplined t) (id : Bytes) : OthersKept id t :=
  fun id' _ => h id'

theorem OthersKept.disciplined {id : Bytes} (h : OthersKept id t) (hid : Kept t id) :
    Disciplined t := by
  intro id'
  by_cases hne : id' = id
  · rw [hne]
    exact hid
  · exact h id' hne

theorem updateTicket_touches {id id' : Bytes} {set : Ticket → Ticket}
    (h : (Change.updateTicket id set).Touches (.ticket id')) : id' = id := RowLock.ticket.inj h

/-- A change to one ticket that leaves its links alone and does not shut it. -/
theorem Disciplined.apply {id : Bytes} (h : Disciplined t)
    (only : ∀ id', c.Touches (.ticket id') → id' = id)
    (live : ∀ a, (c.apply t).Live id a ↔ t.Live id a) (opened : Open id t → Open id (c.apply t)) :
    Disciplined (c.apply t) := by
  refine ((h.others id).apply only).disciplined ⟨?_, ?_⟩
  · simp only [live]
    exact (h id).one
  · simp only [live]
    exact fun ha => opened ((h id).opened ha)

theorem Disciplined.update {id : Bytes} {set : Ticket → Ticket} (h : Disciplined t)
    (safe : ∀ row, t.tickets.lookup id = some row → (set row).Shut → row.Shut) :
    Disciplined ((Change.updateTicket id set).apply t) := by
  refine h.apply (fun _ => updateTicket_touches) (fun a => Change.live_apply _ t id a) ?_
  rintro ⟨row, hrow, hopen⟩
  refine ⟨set row, ?_, fun hshut => hopen (safe row hrow hshut)⟩
  rw [Change.lookup_tickets, hrow, Change.onTicket, if_pos rfl, Option.map_some]

theorem Disciplined.insertTicket {id : Bytes} {ticket : Ticket} (h : Disciplined t) :
    Disciplined ((Change.insertTicket id ticket).apply t) := by
  refine h.apply (fun _ => RowLock.ticket.inj) (fun a => Change.live_apply _ t id a) ?_
  rintro ⟨row, hrow, hopen⟩
  refine ⟨row, ?_, hopen⟩
  rw [Change.lookup_tickets, hrow, Change.onTicket, if_pos rfl, Option.getD_some]

theorem OthersKept.insertLink {id : Bytes} {link : AccessLink} (h : OthersKept id t)
    (bare : ∀ a, ¬t.Live id a) (opened : Open id t) (hlink : link.ticketID = id) :
    Disciplined ((Change.insertLink tokenHash link).apply t) := by
  -- no other link of the ticket is live
  have new : ∀ {a}, ((Change.insertLink tokenHash link).apply t).Live id a → a = tokenHash := by
    intro a ha
    rcases (Change.live_apply (.insertLink tokenHash link) t id a).mp ha with ha | ⟨ha, -⟩
    · exact absurd ha (bare a)
    · exact ha
  refine (h.apply fun id' htouch => ?_).disciplined ⟨fun ha hb => (new ha).trans (new hb).symm, fun _ => ?_⟩
  · rcases htouch with htouch | htouch <;> cases htouch
    exact hlink
  · obtain ⟨row, hrow, hopen⟩ := opened
    exact ⟨row, by rw [Change.lookup_tickets]; exact hrow, hopen⟩

/-! Statements. -/

section
variable {lower : Bytes → Bytes} {id : Bytes} {where_ : Ticket → Bool} {I : Tables → Prop}

variable {t : Tables} {set : Ticket → Ticket} {now : Int}

theorem Tables.ticketWhere_some {ticket : Ticket} : t.ticketWhere id where_ = some ticket ↔
      t.tickets.lookup id = some ticket ∧ where_ ticket = true := by
  unfold Tables.ticketWhere
  rw [Option.filter_eq_some_iff]

/-- The program keeps the discipline of the links. -/
abbrev Keeping (lower : Bytes → Bytes) {α : Type} (p : Body α) : Prop :=
  (protection lower).Triple (fun _ => Disciplined) p fun _ _ => Disciplined

theorem triple_query {α : Type} {reply : Tables → Except Err α} {P : List RowLock → Tables → Prop} :
    (protection lower).Triple P (query reply) fun _ => P := by
  refine triple_stmt fun held view t b _ hp _ => ⟨?_, fun _ h => by cases h⟩
  rw [List.append_nil]
  exact hp

theorem triple_select : (protection lower).Triple (fun _ => I) (selectForUpdate id where_)
    fun ticket held t => .ticket id ∈ held ∧ t.tickets.lookup id = some ticket ∧ I t := by
  refine triple_stmt fun held view t ticket same hi reply => ⟨?_, fun _ h => by cases h⟩
  split at reply
  · next row hrow =>
    cases reply
    rw [hrow] at same ⊢
    have hlock : RowLock.ticket id ∈ held ++ [RowLock.ticket id] := by simp
    exact ⟨hlock, (same _ hlock).1.symm.trans (Tables.ticketWhere_some.mp hrow).1, hi⟩
  · cases reply

theorem triple_update : (protection lower).Triple (fun _ => I)
    (update id where_ set) fun affected held t =>
      if affected then .ticket id ∈ held ∧ ∃ t₀, I t₀ ∧ t = (Change.updateTicket id set).apply t₀ ∧
        ∃ row, t₀.tickets.lookup id = some row ∧ where_ row = true
      else I t := by
  refine triple_stmt fun held view t affected same hi reply => ?_
  cases reply
  cases hrow : view.ticketWhere id where_ with
  | none => exact ⟨hi, fun _ h => by cases h⟩
  | some row =>
    rw [hrow] at same
    obtain ⟨hview, hwhere⟩ := Tables.ticketWhere_some.mp hrow
    have hlock : RowLock.ticket id ∈ held ++ [RowLock.ticket id] := by simp
    refine ⟨⟨hlock, t, hi, rfl, row, (same _ hlock).1.symm.trans hview, hwhere⟩, ?_⟩
    rintro c hc k hk
    cases List.mem_singleton.mp hc
    rw [show k = RowLock.ticket id from hk]
    exact hlock

theorem triple_update_open (keeps : ∀ t, I t → I ((Change.updateTicket id set).apply t))
    (safe : ∀ row, where_ row = true → (set row).Shut → row.Shut) :
    (protection lower).Triple (fun _ t => Disciplined t ∧ I t) (update id where_ set)
      fun _ _ t => Disciplined t ∧ I t := by
  refine triple_update.conseq (fun _ _ h => h) fun affected held t h => ?_
  split at h
  · obtain ⟨-, t₀, ⟨hdisc, hi⟩, rfl, row, hrow, hwhere⟩ := h
    refine ⟨hdisc.update fun row' hrow' => ?_, keeps _ hi⟩
    cases hrow.symm.trans hrow'
    exact safe row hwhere
  · exact h

theorem triple_open (safe : ∀ row, where_ row = true → (set row).Shut → row.Shut) :
    Keeping lower (update id where_ set) :=
  (triple_update_open (I := fun _ => True) (fun _ h => h) safe).conseq (fun _ _ h => ⟨h, trivial⟩)
    fun _ _ _ h => h.1

theorem Tables.mem_liveLinks : tokenHash ∈ t.liveLinks id ↔ t.Live id tokenHash := by
  unfold Tables.liveLinks Tables.Live
  simp only [List.mem_map, List.mem_filter]
  constructor
  · rintro ⟨e, ⟨he, hlive⟩, rfl⟩
    exact ⟨e.2, AList.mem_lookup_iff.mpr he, hlive⟩
  · rintro ⟨link, hlink, hlive⟩
    exact ⟨⟨tokenHash, link⟩, ⟨AList.mem_lookup_iff.mp hlink, hlive⟩, rfl⟩

/-- Under the lock of the ticket, no link of it is live after a revocation. -/
theorem triple_revoke (keeps : ∀ t found, I t → I ((Change.revokeLinks id found now).apply t)) :
    (protection lower).Triple (fun held t => .ticket id ∈ held ∧ OthersKept id t ∧ I t)
      (revokeAccessLinks id now)
      fun _ _ t => OthersKept id t ∧ (∀ a, ¬t.Live id a) ∧ I t := by
  refine triple_stmt fun held view t _ same ⟨hlock, hothers, hi⟩ _ => ⟨⟨?_, ?_, keeps _ _ hi⟩, ?_⟩
  · show OthersKept id ((Change.revokeLinks id (view.liveLinks id) now).apply t)
    refine hothers.apply fun id' htouch => ?_
    rcases htouch with htouch | ⟨_, _, htouch⟩ <;> cases htouch
    rfl
  · intro a ha
    have hlive := ((same (.ticket id) (List.mem_append_left _ hlock)).2 a).symm
    obtain ⟨ha, hfound⟩ := (Change.live_apply (.revokeLinks id _ now) t id a).mp ha
    exact hfound ⟨rfl, Tables.mem_liveLinks.mpr (hlive.mp ha)⟩
  · rintro c hc k hk
    cases List.mem_singleton.mp hc
    rcases hk with rfl | ⟨tokenHash, hfound, rfl⟩
    · exact List.mem_append_left _ hlock
    · exact List.mem_append_right _ (List.mem_map_of_mem hfound)

/-! The shared transitions. -/

theorem triple_shut_and_revoke : (protection lower).Triple
    (fun held t => .ticket id ∈ held ∧ OthersKept id t) (revokeAccessLinks id now)
      fun _ _ => Disciplined :=
  (triple_revoke (I := fun _ => True) fun _ _ h => h).conseq (fun _ _ h => ⟨h.1, h.2, trivial⟩)
    fun _ _ _ h => h.1.disciplined (.of_bare h.2.1)

theorem triple_close {closedBy : Option Bytes} : Keeping lower (close id closedBy now where_) := by
  refine triple_bind triple_update fun affected => ?_
  cases affected with
  | false => exact triple_pure fun _ _ h => h
  | true =>
    refine triple_returns (triple_shut_and_revoke.conseq ?_ fun _ _ _ h => h)
    rintro held _ ⟨hlock, t₀, hdisc, rfl, -⟩
    exact ⟨hlock, (hdisc.others id).apply fun _ => updateTicket_touches⟩

theorem triple_closeAutomatically {staleBefore : Int} :
    Keeping lower (closeAutomatically id staleBefore now) := by
  refine triple_bind triple_close fun affected => ?_
  cases affected with
  | false => exact triple_pure fun _ _ h => h
  | true => exact triple_returns (triple_open fun _ _ h => h)

theorem triple_setOpenStatus {status : TicketStatus} (hopen : status ≠ .closed) :
    Keeping lower (setOpenStatus id status now where_) :=
  triple_open fun _ _ hshut => hshut.elim (fun h => absurd h hopen) .inr

theorem triple_issue {requesterEmail : Bytes} {expiresAt : Int} :
    (protection lower).Triple (fun held t => .ticket id ∈ held ∧ Disciplined t ∧ Open id t)
      (issueAccessLink id requesterEmail tokenHash expiresAt now) fun _ _ => Disciplined := by
  have hrevoke : (protection lower).Triple (fun held t => .ticket id ∈ held ∧ OthersKept id t ∧ Open id t)
      (revokeAccessLinks id now) fun _ _ t => OthersKept id t ∧ (∀ a, ¬t.Live id a) ∧ Open id t :=
    triple_revoke fun _ _ h => h
  refine triple_bind ((hrevoke.keep (.ticket id)).conseq
    (fun _ _ h => ⟨h.1, h.1, h.2.1.others id, h.2.2⟩) fun _ _ _ h => h) fun _ => ?_
  refine triple_stmt fun held view t _ same ⟨hlock, hothers, hbare, hopen⟩ _ => ⟨?_, ?_⟩
  · exact hothers.insertLink hbare hopen rfl
  · rintro c hc k hk
    cases List.mem_singleton.mp hc
    rcases hk with rfl | rfl
    · exact List.mem_append_left _ hlock
    · simp

/-! The calls. -/

variable {start : Int}

theorem triple_createSupportRequest {accountID : Option Bytes} {email : Bytes} :
    Keeping lower (createSupportRequest id accountID email start) := by
  refine triple_returns (triple_stmt fun held view t _ _ hdisc _ => ?_)
  refine ⟨hdisc.insertTicket, ?_⟩
  rintro c hc k hk
  cases List.mem_singleton.mp hc
  rw [show k = RowLock.ticket id from hk]
  simp

theorem triple_resolve : (protection lower).Triple
    (fun _ => Disciplined) (resolveSupportAccessLink tokenHash start)
      fun _ _ t => Disciplined t ∧ t.Unrevoked tokenHash := by
  refine triple_bind triple_query fun ticketID => triple_bind triple_select fun ticket => ?_
  split
  · exact triple_fail _
  refine triple_bind (Q := fun _ _ t => Disciplined t ∧ t.Unrevoked tokenHash) ?_ fun email => ?_
  · refine triple_stmt fun held view t _ same ⟨_, _, hdisc⟩ reply => ⟨⟨hdisc, ?_⟩, fun _ h => by cases h⟩
    split at reply
    · next link hlink =>
      rw [hlink] at same
      obtain ⟨hview, hlive⟩ := Option.filter_eq_some_iff.mp hlink
      have hrow : view.links.lookup tokenHash = t.links.lookup tokenHash :=
        same (.link tokenHash) (by simp)
      rw [Bool.and_eq_true, Option.isNone_iff_eq_none] at hlive
      exact ⟨link, hrow.symm.trans hview, hlive.1⟩
    · cases reply
  · split
    · exact triple_fail _
    · exact triple_pure fun _ _ h => h

theorem Tables.Unrevoked.apply (h : t.Unrevoked tokenHash)
    (other : ∀ id found now, c ≠ .revokeLinks id found now) : (c.apply t).Unrevoked tokenHash := by
  obtain ⟨link, hlink, hrevoked⟩ := h
  unfold Tables.Unrevoked
  rw [c.lookup_links, hlink]
  cases c with
  | insertTicket | updateTicket => exact ⟨link, rfl, hrevoked⟩
  | insertLink k new =>
    refine ⟨link, ?_, hrevoked⟩
    simp only [Change.onLink, Option.getD_some]
    split <;> rfl
  | revokeLinks id found now => exact absurd rfl (other id found now)
  | useLink k now =>
    refine ⟨_, rfl, ?_⟩
    dsimp only
    split <;> exact hrevoked

theorem triple_use : (protection lower).Triple
    (fun _ t => Disciplined t ∧ t.Unrevoked tokenHash) (useAccessLink tokenHash start)
      fun _ _ t => Disciplined t ∧ t.Unrevoked tokenHash := by
  refine triple_stmt fun held view t _ same ⟨hdisc, hlive⟩ _ => ?_
  cases hrow : view.links.lookup tokenHash with
  | none => exact ⟨⟨hdisc, hlive⟩, fun _ h => by cases h⟩
  | some link =>
    have kept : ∀ id, Kept ((Change.useLink tokenHash start).apply t) id := fun id =>
      (hdisc id).congr (Change.same_frame _ t fun h => by cases h)
    have unrevoked : ((Change.useLink tokenHash start).apply t).Unrevoked tokenHash :=
      hlive.apply fun _ _ _ h => by cases h
    refine ⟨⟨kept, unrevoked⟩, ?_⟩
    rintro c hc k hk
    cases List.mem_singleton.mp hc
    rw [show k = RowLock.link tokenHash from hk]
    simp

theorem Ticket.answered_shut {row : Ticket} (h : (row.answered start).Shut) : row.Shut := by
  rcases h with h | h
  · simp only [Ticket.answered] at h
    split at h <;> cases h
  · exact .inr h

theorem triple_supportTicketForAccessToken :
    (protection lower).Triple (fun _ => Disciplined) (supportTicketForAccessToken tokenHash start)
      fun _ _ t => Disciplined t ∧ t.Unrevoked tokenHash :=
  triple_bind triple_resolve fun _ => triple_returns triple_use

theorem triple_replyWithAccessToken : (protection lower).Triple (fun _ => Disciplined)
      (replyToSupportTicketWithAccessToken tokenHash start)
      fun _ _ t => Disciplined t ∧ t.Unrevoked tokenHash := by
  refine triple_bind triple_resolve fun _ => triple_bind (triple_update_open ?_ ?_) fun _ =>
    triple_returns triple_use
  · exact fun _ h => h.apply fun _ _ _ h => by cases h
  · exact fun _ _ => Ticket.answered_shut

theorem triple_attach {accountID : Bytes} :
    Keeping lower (attachSupportTicket lower accountID id now) := by
  refine triple_bind triple_select fun ticket => ?_
  split
  · exact triple_fail _
  refine triple_bind triple_query fun account => ?_
  split
  · exact triple_fail _
  split
  · exact triple_fail _
  refine triple_bind (Q := fun _ held t => .ticket id ∈ held ∧ OthersKept id t) ?_ fun _ =>
    triple_returns triple_shut_and_revoke
  refine ((triple_update (I := Disciplined)).keep (.ticket id)).conseq
    (fun _ _ h => ⟨h.1, h.2.2⟩) fun affected held t h => ⟨h.1, ?_⟩
  have h := h.2
  split at h
  · obtain ⟨-, t₀, hdisc, rfl, -⟩ := h
    exact (hdisc.others id).apply fun _ => updateTicket_touches
  · exact h.others id

theorem triple_replyTicket {email : Option ReplyEmail} :
    Keeping lower (replyTicket id email now start) := by
  refine triple_bind triple_select fun ticket => ?_
  split
  · exact triple_fail _
  next hopen =>
  -- the row keeps its account, and it is not closed
  refine triple_bind (Q := fun _ held t => .ticket id ∈ held ∧ Disciplined t ∧
    (ticket.accountID = none → Open id t)) ?_ fun _ => ?_
  · refine ((triple_update (I := fun t => t.tickets.lookup id = some ticket ∧
      Disciplined t)).keep (.ticket id)).conseq (fun _ _ h => h) fun affected held t h => ⟨h.1, ?_⟩
    have h := h.2
    split at h
    · obtain ⟨-, t₀, ⟨hrow, hdisc⟩, rfl, -⟩ := h
      refine ⟨hdisc.update fun row _ hshut => hshut.elim (fun h => by cases h) .inr, fun hfree => ?_⟩
      refine ⟨ticket.replied start, ?_, fun hshut => hshut.elim (fun h => by cases h) (absurd hfree)⟩
      rw [Change.lookup_tickets, hrow, Change.onTicket, if_pos rfl, Option.map_some]
    · exact ⟨h.2, fun hfree => ⟨ticket, h.1, fun hshut => hshut.elim hopen (absurd hfree)⟩⟩
  · split
    · split
      · next hlink =>
        refine triple_returns (triple_issue.conseq (fun _ _ h => ⟨h.1, h.2.1, ?_⟩) fun _ _ _ h => h)
        exact h.2.2 (Option.isNone_iff_eq_none.mp hlink.2)
      · exact triple_pure fun _ _ h => h.2.1
    · exact triple_pure fun _ _ h => h.2.1

theorem triple_assignTicket {adminID : Bytes} : Keeping lower (assignTicket id adminID start) := by
  unfold assignTicket
  split
  · exact triple_returns (triple_open fun _ _ h => h)
  refine triple_bind triple_query fun admin => ?_
  split
  · exact triple_fail _
  refine triple_returns (triple_open fun row _ hshut => ?_)
  rcases hshut with hstatus | hattached
  · simp only at hstatus
    split at hstatus
    · cases hstatus
    · exact .inl hstatus
  · exact .inr hattached

theorem triple_setTicketStatus {adminID : Bytes} {status : TicketStatus} :
    Keeping lower (setTicketStatus adminID id status now) := by
  refine triple_bind (triple_select.conseq (fun _ _ h => h) fun _ _ _ h => h.2.2) fun _ => ?_
  split
  · exact triple_returns triple_close
  · next hopen => exact triple_returns (triple_setOpenStatus hopen)

/-- **Every call keeps the discipline of the links.** -/
theorem triple_program (task : Task) (start : Int) :
    Keeping lower ((engine lower).program task start) := by
  cases task with
  | createSupportRequest => exact triple_createSupportRequest
  | closeSupportTicket =>
    refine triple_bind triple_close fun affected => ?_
    cases affected with
    | true => exact triple_pure fun _ _ h => h
    | false => exact triple_query
  | reopenSupportTicket =>
    refine triple_bind (triple_setOpenStatus (by decide)) fun affected => ?_
    cases affected with
    | true => exact triple_pure fun _ _ h => h
    | false => exact triple_query
  | replyToSupportTicket =>
    refine triple_bind (triple_select.conseq (fun _ _ h => h) fun _ _ _ h => h.2.2) fun ticket => ?_
    split
    · exact triple_fail _
    · exact triple_returns (triple_open fun _ _ => Ticket.answered_shut)
  | supportTicketForAccessToken =>
    exact triple_supportTicketForAccessToken.conseq (fun _ _ h => h) fun _ _ _ h => h.1
  | replyToSupportTicketWithAccessToken =>
    exact triple_replyWithAccessToken.conseq (fun _ _ h => h) fun _ _ _ h => h.1
  | attachSupportTicket => exact triple_attach
  | replyTicket => exact triple_replyTicket
  | assignTicket => exact triple_assignTicket
  | setTicketStatus => exact triple_setTicketStatus
  | setTicketPriority =>
    refine triple_bind (triple_open fun _ _ h => h) fun affected => ?_
    cases affected with
    | true => exact triple_pure fun _ _ h => h
    | false => exact triple_fail _
  | autoClose =>
    refine triple_bind triple_query fun ids => triple_returns (triple_forM fun id => ?_)
    exact triple_returns triple_closeAutomatically

/-! Runs. -/

/-- The call resolves the link: it answers with what the link opens. -/
def Task.resolves (task : Task) (tokenHash : Bytes) : Prop :=
  task = .supportTicketForAccessToken tokenHash ∨
  task = .replyToSupportTicketWithAccessToken tokenHash

theorem triple_resolves {task : Task} (h : task.resolves tokenHash) (start : Int) :
    (protection lower).Triple (fun _ => Disciplined) ((engine lower).program task start)
      fun _ _ t => Disciplined t ∧ t.Unrevoked tokenHash := by
  rcases h with rfl | rfl
  · exact triple_supportTicketForAccessToken
  · exact triple_replyWithAccessToken

theorem steps_revoked {sys sys' : System Task Tables Change RowLock Err Reply}
    {events : List (Event Task Tables Change RowLock Err Reply)}
    (steps : (engine lower).Steps sys events sys') (sound : (engine lower).Sound sys)
    (h : sys.tables.Revoked tokenHash) : sys'.tables.Revoked tokenHash :=
  Engine.Steps.tables steps sound (R := fun s t => s.Revoked tokenHash → t.Revoked tokenHash)
    (fun _ h => h) (fun h h' hr => h' (h hr))
    (fun _ _ _ => applyAll_revoked) h

/-- **The access links of a ticket.** In every run of the calls, interleaved in any way, at most
    one link of a ticket is unrevoked, none is while the ticket is closed or attached to an
    account, and once a link is revoked no call that resolves it commits any more. -/
theorem access_links_exclusive {tables : Tables} {clock : Int}
    {events : List (Event Task Tables Change RowLock Err Reply)}
    {sys : System Task Tables Change RowLock Err Reply} (first : Disciplined tables)
    (run : (engine lower).Run tables clock events sys) :
    (∀ id a b, sys.tables.Live id a → sys.tables.Live id b → a = b) ∧
    (∀ id ticket, sys.tables.tickets.lookup id = some ticket → ticket.Shut →
      ∀ a, ¬sys.tables.Live id a) ∧
    ∀ tokenHash, sys.tables.Revoked tokenHash → ∀ later sys', (engine lower).Steps sys later sys' →
      ∀ k txn, .committed k txn ∈ later → ¬txn.task.resolves tokenHash := by
  obtain ⟨kept, -⟩ := Run.upholds run triple_program first
  refine ⟨fun id _ _ => (kept id).one, fun id ticket hrow hshut a ha => ?_,
    fun tokenHash revoked later sys' steps k txn hmem resolves => ?_⟩
  · obtain ⟨row, hrow', hopen⟩ := (kept id).opened ha
    cases hrow.symm.trans hrow'
    exact hopen hshut
  · obtain ⟨before, mid, path, active, reply, body⟩ := Engine.Steps.committed steps hmem
    have run' := run.trans path
    obtain ⟨kept', settled⟩ := Run.upholds run' triple_program first
    -- the link is revoked when the call commits, and unrevoked after its own changes
    have revoked' : (applyAll (engine lower).apply (changesOf txn.trace) mid.tables).Revoked tokenHash :=
      applyAll_revoked (steps_revoked path (Engine.Run.sound run) revoked)
    obtain ⟨⟨-, link, hlink, hlive⟩, -⟩ :=
      settled.post (Engine.Run.sound run') active body (triple_resolves resolves txn.start) kept'
    obtain ⟨link', hlink', hrevoked⟩ := revoked'
    cases hlink.symm.trans hlink'
    exact hrevoked hlive

end

/-! A ticket that two replies send links for; it is closed and opened again. -/

namespace Demo

def tables : Tables where
  tickets := AList.singleton [1]
    ⟨none, utf8 "a@example.org", .open_, .normal, none, 1, none, none, false, none, none⟩
  links := ∅
  accounts := ∅
  admins := ∅

theorem tables_disciplined : Disciplined tables := fun _ => .of_bare fun _ ⟨_, h, _⟩ => by cases h

def moves : List (Move Task) :=
  .begin (.replyTicket [1] (some ⟨[7], 1000⟩) 20) :: List.replicate 5 (.advance 0) ++
  -- the first link is opened while the second reply waits for the ticket
  .begin (.supportTicketForAccessToken [7]) :: List.replicate 3 (.advance 1) ++
  .begin (.replyTicket [1] (some ⟨[8], 1000⟩) 30) :: List.replicate 2 (.advance 1) ++
  List.replicate 5 (.advance 2) ++
  .begin (.setTicketStatus [9] [1] .closed 40) :: List.replicate 4 (.advance 3) ++
  .begin (.setTicketStatus [9] [1] .open_ 50) :: List.replicate 3 (.advance 4)

def linkRevoked (t : Tables) (tokenHash : Bytes) : Bool :=
  (t.links.lookup tokenHash).any fun link => link.revokedAt.isSome

theorem revoked_of_linkRevoked {t : Tables} (h : linkRevoked t tokenHash = true) :
    t.Revoked tokenHash := by
  obtain ⟨link, hlink, hrevoked⟩ := (Option.any_eq_true _ _).mp h
  exact ⟨link, hlink, Option.isSome_iff_ne_none.mp hrevoked⟩

end Demo

/-- The ticket is open again, and neither link ever resolves from now on. -/
theorem Demo.reopened_without_links : ∃ events sys,
    (engine id).Run tables 10 events sys ∧ events.length = 5 ∧
    (sys.tables.tickets.lookup [1]).map (·.status) = some .open_ ∧
    ∀ tokenHash, tokenHash = [7] ∨ tokenHash = [8] → ∀ later sys', (engine id).Steps sys later sys' →
      ∀ k txn, .committed k txn ∈ later → ¬txn.task.resolves tokenHash := by
  have h : ((engine id).play (Engine.start tables 10) moves).any (fun r =>
      r.1.length == 5 && (r.2.tables.tickets.lookup [1]).map (·.status) == some .open_ &&
      linkRevoked r.2.tables [7] && linkRevoked r.2.tables [8]) = true := by decide +kernel
  obtain ⟨⟨events, sys⟩, played, h⟩ := (Option.any_eq_true _ _).mp h
  simp only [Bool.and_eq_true, beq_iff_eq] at h
  obtain ⟨⟨⟨five, status⟩, seven⟩, eight⟩ := h
  have run : (engine id).Run tables 10 events sys := Engine.play_steps played
  obtain ⟨-, -, never⟩ := access_links_exclusive tables_disciplined run
  refine ⟨events, sys, run, five, status, fun tokenHash htoken => never tokenHash ?_⟩
  rcases htoken with rfl | rfl
  · exact revoked_of_linkRevoked seven
  · exact revoked_of_linkRevoked eight

end Sesame.Support
