import SesameServer.Lib.Encoding
import SesameServer.Lib.History
import SesameServer.Lib.Table

/- The email outbox (`internal/notifications`: `outbox.go`, `worker.go`, table
   `sesame_email_outbox`).

   1. Rows and the statements of `PostgresOutbox`; times are in microseconds. A statement is
      atomic for every row it touches, and each has its own `now()`.
   2. `Worker` — where `pollOnce` stands: the three statements of `Poll` come one after the
      other, then one mark for each item. A worker may stop anywhere.
   3. `Next` — one step of any worker or of the maintenance, at any time.
   4. `RowStep` — what a step does to one row.
   5. `Turn.play` — the same steps, executable (`playAll_run`). -/
namespace Sesame.Notifications

inductive Status where
  | pending | processing | delivered | failed
  deriving DecidableEq

structure OutboxRow where
  kind : Bytes
  toEmail : Bytes
  actionURL : Bytes
  subject : Bytes
  body : Bytes
  expiresAt : Int
  status : Status
  attempts : Nat
  errorMessage : Option Bytes
  nextAttemptAt : Int
  leaseUntil : Option Int
  createdAt : Int
  updatedAt : Int
  deriving DecidableEq

/-- `httpapi.AccountEmail`, its action URL sealed. -/
structure AccountEmail where
  kind : Bytes
  to_ : Bytes
  sealedActionURL : Bytes
  expiresAt : Int
  subject : Bytes
  body : Bytes
  discard : Bool
  deriving DecidableEq

structure OutboxItem where
  id : Bytes
  kind : Bytes
  to_ : Bytes
  sealedActionURL : Bytes
  subject : Bytes
  body : Bytes
  expiresAt : Int
  attempts : Nat
  createdAt : Int
  updatedAt : Int
  deriving DecidableEq

/-- The settings of a `PostgresOutbox`; no outbox gives up before the first attempt. -/
structure Settings where
  maxRetryInterval : Int
  leaseDuration : Int
  maxAttempts : Nat
  attempts_pos : 0 < maxAttempts

def second : Int := 1000000
def minute : Int := 60 * second

/-- `NewPostgresOutbox`. -/
def NewPostgresOutbox : Settings := ⟨24 * 60 * minute, 5 * minute, 8, by decide⟩

/-- `sesame_email_outbox`. -/
abbrev Rows := Table Bytes OutboxRow

/-! Statements. -/

def actionURLSealedPrefix : Bytes := utf8 "v1:"

/-- `status IN ('pending', 'processing')`. -/
def OutboxRow.isOpen (r : OutboxRow) : Bool := r.status == .pending || r.status == .processing

/-- `enqueueOutboxMessage`; the database draws the id. -/
def enqueue (now : Int) (id : Bytes) (m : AccountEmail) (rows : Rows) : Rows :=
  if m.discard then rows
  else rows.insert id ⟨m.kind, m.to_, m.sealedActionURL, m.subject, m.body, m.expiresAt, .pending, 0,
    none, now, none, now, now⟩

/-- The first statement of `Poll`. -/
def expire (now : Int) (rows : Rows) : Rows :=
  rows.updateWhere (fun _ r => r.isOpen && decide (r.expiresAt ≤ now)) fun r => { r with
    status := .failed, errorMessage := some (utf8 "message_expired"), leaseUntil := none,
    updatedAt := now }

def clearUnsealed (now : Int) (rows : Rows) : Rows :=
  rows.updateWhere (fun _ r => r.isOpen && r.actionURL != [] &&
      !actionURLSealedPrefix.isPrefixOf r.actionURL) fun r => { r with
    status := .failed, errorMessage := some (utf8 "action_url_not_sealed"), leaseUntil := none,
    actionURL := [], updatedAt := now }

/-- A row that may be handed out. -/
def OutboxRow.due (now : Int) (r : OutboxRow) : Bool :=
  decide (now < r.expiresAt) &&
    ((r.status == .pending && decide (r.nextAttemptAt ≤ now)) ||
      (r.status == .processing && r.leaseUntil.any (· ≤ now)))

/-- `ORDER BY next_attempt_at ASC, created_at ASC`. -/
def OutboxRow.before (a b : OutboxRow) : Bool :=
  decide (a.nextAttemptAt < b.nextAttemptAt) ||
    (a.nextAttemptAt == b.nextAttemptAt && decide (a.createdAt ≤ b.createdAt))

/-- The candidates of the third; rows that others have locked are skipped. -/
def candidates (now : Int) (locked : Bytes → Bool) (limit : Nat) (rows : Rows) :
    List (Bytes × OutboxRow) :=
  (((rows.entries.filter fun e => e.2.due now && !locked e.1).map fun e => (e.1, e.2)).mergeSort
    fun a b => a.2.before b.2).take limit

def OutboxRow.lease (o : Settings) (now : Int) (r : OutboxRow) : OutboxRow :=
  { r with status := .processing, leaseUntil := some (now + o.leaseDuration), updatedAt := now }

def OutboxItem.of (id : Bytes) (r : OutboxRow) : OutboxItem :=
  ⟨id, r.kind, r.toEmail, r.actionURL, r.subject, r.body, r.expiresAt, r.attempts, r.createdAt,
    r.updatedAt⟩

/-- The third: the items and the rows afterwards. -/
def claim (o : Settings) (now : Int) (locked : Bytes → Bool) (limit : Nat) (rows : Rows) :
    List OutboxItem × Rows :=
  let taken := candidates now locked limit rows
  (taken.map fun e => .of e.1 (e.2.lease o now),
    rows.updateWhere (fun id _ => taken.any fun e => e.1 == id) (OutboxRow.lease o now))

/-- `limit <= 0` means ten. -/
def pollLimit (limit : Int) : Nat := if limit ≤ 0 then 10 else limit.toNat

def OutboxRow.markDelivered (now : Int) (r : OutboxRow) : OutboxRow :=
  { r with
    status := .delivered, attempts := r.attempts + 1, errorMessage := none, leaseUntil := none,
    updatedAt := now }

/-- Fails if no row is changed. -/
def markDelivered (now : Int) (id : Bytes) (rows : Rows) : Option Rows :=
  rows.change id (fun r => r.status == .processing) (OutboxRow.markDelivered now)

def OutboxRow.markFailed (o : Settings) (now : Int) (message : Bytes) (r : OutboxRow) : OutboxRow :=
  { r with
    status := if r.attempts + 1 ≥ o.maxAttempts ∨ r.expiresAt ≤ now then .failed else .pending
    attempts := r.attempts + 1
    errorMessage := some (message.take 512)
    nextAttemptAt := now + min (2 ^ r.attempts * minute) o.maxRetryInterval
    leaseUntil := none
    updatedAt := now }

def markFailed (o : Settings) (now : Int) (id message : Bytes) (rows : Rows) : Option Rows :=
  rows.change id (fun r => r.status == .processing) (OutboxRow.markFailed o now message)

/-! Workers. -/

/-- Where `pollOnce` stands. -/
inductive Worker where
  | idle
  /-- `Poll` has expired messages. -/
  | expired
  /-- And cleared those that are not sealed. -/
  | cleared
  /-- These items are still to be delivered and marked. -/
  | holding (items : List OutboxItem)
  deriving DecidableEq

def batchSize : Int := 10

inductive Event where
  /-- A row was handed out until `lease`; `again` if it was leased before and the lease ran
      out. -/
  | handed (worker : Nat) (id : Bytes) (lease : Int) (again : Bool)
  /-- A worker marked a row that it got until `lease`; `changed` if that changed the row. -/
  | marked (worker : Nat) (id : Bytes) (lease : Int) (changed : Bool)
  deriving DecidableEq

structure System where
  rows : Rows
  workers : Nat → Worker
  ids : List Bytes
  now : Int

def System.init : System := ⟨∅, fun _ => .idle, [], 0⟩

def System.move (s : System) (now : Int) (rows : Rows) (w : Nat) (at_ : Worker) : System :=
  { s with rows := rows, workers := fun v => if v = w then at_ else s.workers v, now := now }

def handing (o : Settings) (now : Int) (w : Nat) (taken : List (Bytes × OutboxRow)) : List Event :=
  taken.map fun e => .handed w e.1 (now + o.leaseDuration) (e.2.status == .processing)

def OutboxItem.lease (o : Settings) (item : OutboxItem) : Int := item.updatedAt + o.leaseDuration

variable (o : Settings)

inductive Next : System → List Event → System → Prop
  | enqueue {s : System} (now : Int) (id : Bytes) (m : AccountEmail) (fresh : id ∉ s.ids) :
      Next s [] { s with
        rows := Notifications.enqueue now id m s.rows, ids := s.ids ++ [id], now := now }
  | expire {s : System} {w : Nat} (now : Int) (at_ : s.workers w = .idle) :
      Next s [] (s.move now (Notifications.expire now s.rows) w .expired)
  | clear {s : System} {w : Nat} (now : Int) (at_ : s.workers w = .expired) :
      Next s [] (s.move now (clearUnsealed now s.rows) w .cleared)
  | claim {s : System} {w : Nat} (now : Int) (locked : Bytes → Bool) (at_ : s.workers w = .cleared) :
      Next s (handing o now w (candidates now locked (pollLimit batchSize) s.rows))
        (s.move now (Notifications.claim o now locked (pollLimit batchSize) s.rows).2 w
          (.holding (Notifications.claim o now locked (pollLimit batchSize) s.rows).1))
  | delivered {s : System} {w : Nat} {item : OutboxItem} {items : List OutboxItem} (now : Int)
      (at_ : s.workers w = .holding (item :: items)) :
      Next s [.marked w item.id (item.lease o) (markDelivered now item.id s.rows).isSome]
        (s.move now ((markDelivered now item.id s.rows).getD s.rows) w (.holding items))
  | failed {s : System} {w : Nat} {item : OutboxItem} {items : List OutboxItem} (now : Int)
      (message : Bytes) (at_ : s.workers w = .holding (item :: items)) :
      Next s [.marked w item.id (item.lease o) (markFailed o now item.id message s.rows).isSome]
        (s.move now ((markFailed o now item.id message s.rows).getD s.rows) w (.holding items))
  /-- The batch is done, a statement failed, or the worker stopped and came up again. -/
  | back {s : System} {w : Nat} (now : Int) : Next s [] (s.move now s.rows w .idle)
  /-- `PurgeDeliveredOlderThan`, `PurgeFailedOlderThan` and the purge of support history. -/
  | purge {s : System} (now : Int) (p : Bytes → OutboxRow → Bool) :
      Next s [] { s with rows := s.rows.deleteWhere p, now := now }

def Run (es : List Event) (s : System) : Prop :=
  History.Path (Next o) (fun _ => True) .init es s

/-! One row. -/

/-- The event is about the row and changes it. -/
def Event.touches (id : Bytes) : Event → Bool
  | .handed _ k _ _ => k == id
  | .marked _ k _ changed => k == id && changed

/-- What a step at `now`, which draws the ids `drawn`, does to the row `id`. -/
inductive RowStep (now : Int) (drawn : List Bytes) (shown : List Event) (id : Bytes) :
    Option OutboxRow → Option OutboxRow → Prop
  | kept {r : Option OutboxRow} (still : ∀ e ∈ shown, e.touches id = false) :
      RowStep now drawn shown id r r
  | gone {r : Option OutboxRow} (still : ∀ e ∈ shown, e.touches id = false) :
      RowStep now drawn shown id r none
  | enqueued {r : OutboxRow} (still : shown = []) (new : id ∈ drawn) (pending : r.status = .pending)
      (attempts : r.attempts = 0) : RowStep now drawn shown id none (some r)
  | closed {r r' : OutboxRow} (still : shown = []) (failed : r'.status = .failed)
      (attempts : r'.attempts = r.attempts) : RowStep now drawn shown id (some r) (some r')
  | handed {r : OutboxRow} (due : r.due now = true)
      (once : ∃ w before after, shown = before ++
          .handed w id (now + o.leaseDuration) (r.status == .processing) :: after ∧
        (∀ e ∈ before, e.touches id = false) ∧ ∀ e ∈ after, e.touches id = false) :
      RowStep now drawn shown id (some r) (some (r.lease o now))
  | marked {r r' : OutboxRow} (shown_ : ∃ w lease, shown = [.marked w id lease true])
      (processing : r.status = .processing)
      (new : r' = r.markDelivered now ∨ ∃ message, r' = r.markFailed o now message) :
      RowStep now drawn shown id (some r) (some r')

variable {o} {now : Int} {locked : Bytes → Bool} {limit : Nat} {rows : Rows} {drawn : List Bytes}
  {s s' : System} {shown : List Event}

theorem mem_candidates {e : Bytes × OutboxRow} (h : e ∈ candidates now locked limit rows) :
    rows.lookup e.1 = some e.2 ∧ e.2.due now = true := by
  have h := List.mem_mergeSort.mp (List.mem_of_mem_take h)
  obtain ⟨x, hx, rfl⟩ := List.mem_map.mp h
  obtain ⟨hx, hcond⟩ := List.mem_filter.mp hx
  exact ⟨AList.mem_lookup_iff.mpr hx, (Bool.and_eq_true_iff.mp hcond).1⟩

theorem nodup_candidates (now : Int) (locked : Bytes → Bool) (limit : Nat) (rows : Rows) :
    ((candidates now locked limit rows).map Prod.fst).Nodup := by
  have hkeys : (((rows.entries.filter fun e => e.2.due now && !locked e.1).map
      fun e => (e.1, e.2)).map Prod.fst).Nodup := by
    rw [List.map_map]
    exact (List.Sublist.map Sigma.fst List.filter_sublist).nodup rows.nodupKeys
  have hsorted := ((List.mergeSort_perm _ fun a b : Bytes × OutboxRow => a.2.before b.2).map
    Prod.fst).nodup_iff.mpr hkeys
  exact (List.Sublist.map Prod.fst (List.take_sublist _ _)).nodup hsorted

theorem claim_row {w : Nat} {id : Bytes} :
    RowStep o now drawn (handing o now w (candidates now locked limit rows)) id (rows.lookup id)
      ((claim o now locked limit rows).2.lookup id) := by
  have hnodup := nodup_candidates now locked limit rows
  have hmem := @mem_candidates now locked limit rows
  unfold claim
  generalize candidates now locked limit rows = taken at hnodup hmem
  dsimp only
  rw [Table.lookup_updateWhere]
  by_cases hid : ∃ e ∈ taken, e.1 = id
  · obtain ⟨e, he, rfl⟩ := hid
    obtain ⟨hrow, hdue⟩ := hmem he
    have hany : (taken.any fun x => x.1 == e.1) = true := List.any_eq_true.mpr ⟨e, he, by simp⟩
    simp only [hrow, Option.map_some, hany, if_true]
    obtain ⟨before, after, rfl⟩ := List.append_of_mem he
    -- the other rows that are taken are others
    rw [List.map_append, List.map_cons, List.nodup_append] at hnodup
    obtain ⟨-, hafter, hbefore⟩ := hnodup
    refine .handed hdue ⟨w, handing o now w before, handing o now w after, by simp [handing], ?_, ?_⟩
    · intro x hx
      obtain ⟨y, hy, rfl⟩ := List.mem_map.mp hx
      simpa [Event.touches] using hbefore y.1 (List.mem_map_of_mem hy) e.1 List.mem_cons_self
    · intro x hx
      obtain ⟨y, hy, rfl⟩ := List.mem_map.mp hx
      simp only [Event.touches, beq_eq_false_iff_ne]
      intro heq
      exact (List.nodup_cons.mp hafter).1 (heq ▸ List.mem_map_of_mem hy)
  · have hany : (taken.any fun x => x.1 == id) = false := by
      rw [List.any_eq_false]
      intro x hx
      simpa using fun heq => hid ⟨x, hx, heq⟩
    have hsame : (rows.lookup id).map (fun r =>
        if (taken.any fun x => x.1 == id) = true then r.lease o now else r) = rows.lookup id := by
      simp [hany]
    rw [hsame]
    refine .kept fun x hx => ?_
    obtain ⟨y, hy, rfl⟩ := List.mem_map.mp hx
    simpa [Event.touches] using fun heq => hid ⟨y, hy, heq⟩

/-- A mark of `k`: it changed the row, which was leased, or it changed nothing. -/
theorem mark_row {w : Nat} {lease : Int} {k id : Bytes} {f : OutboxRow → OutboxRow}
    (hf : ∀ r, f r = r.markDelivered now ∨ ∃ message, f r = r.markFailed o now message) :
    RowStep o now drawn [.marked w k lease (rows.change k (fun r => r.status == .processing) f).isSome] id
      (rows.lookup id) (((rows.change k (fun r => r.status == .processing) f).getD rows).lookup id) := by
  cases hchange : rows.change k (fun r => r.status == .processing) f with
  | none => exact .kept (by simp [Event.touches])
  | some rows' =>
    obtain ⟨r, hr, hstatus, rfl⟩ := Table.change_some.mp hchange
    rw [Option.getD_some, Table.lookup_insert_eq]
    split
    · next heq =>
      subst heq
      rw [hr]
      exact .marked ⟨w, lease, rfl⟩ (by simpa using hstatus) (hf r)
    · next hne => exact .kept (by simp [Event.touches, Ne.symm hne])

theorem close_row {id : Bytes} {p : Bytes → OutboxRow → Bool} {f : OutboxRow → OutboxRow}
    (hf : ∀ r, (f r).status = .failed ∧ (f r).attempts = r.attempts) :
    RowStep o now drawn [] id (rows.lookup id) ((rows.updateWhere p f).lookup id) := by
  rw [Table.lookup_updateWhere]
  cases hr : rows.lookup id with
  | none => exact .kept (by simp)
  | some r =>
    simp only [Option.map_some]
    split
    · exact .closed rfl (hf r).1 (hf r).2
    · exact .kept (by simp)

def System.Known (s : System) : Prop := ∀ id r, s.rows.lookup id = some r → id ∈ s.ids

/-- **A step does one of these things to a row.** -/
theorem Next.row (next : Next o s shown s') (known : s.Known) : ∃ drawn,
    s'.ids = s.ids ++ drawn ∧ (∀ id ∈ drawn, id ∉ s.ids) ∧
    ∀ id, RowStep o s'.now drawn shown id (s.rows.lookup id) (s'.rows.lookup id) := by
  cases next with
  | enqueue now k m fresh =>
    refine ⟨[k], rfl, by simpa using fresh, fun id => ?_⟩
    dsimp only [Notifications.enqueue]
    split
    · exact .kept (by simp)
    · rw [Table.lookup_insert_eq]
      split
      · next heq =>
        subst heq
        cases hr : s.rows.lookup id with
        | none => exact .enqueued rfl (List.mem_singleton_self _) rfl rfl
        | some r => exact absurd (known id r hr) fresh
      · exact .kept (by simp)
  | expire | clear =>
    exact ⟨[], by simp [System.move], by simp, fun id => close_row fun _ => ⟨rfl, rfl⟩⟩
  | claim => exact ⟨[], by simp [System.move], by simp, fun id => claim_row⟩
  | delivered => exact ⟨[], by simp [System.move], by simp, fun id => mark_row fun _ => .inl rfl⟩
  | failed now message =>
    exact ⟨[], by simp [System.move], by simp, fun id => mark_row fun _ => .inr ⟨message, rfl⟩⟩
  | back => exact ⟨[], by simp [System.move], by simp, fun id => .kept (by simp)⟩
  | purge now p =>
    refine ⟨[], by simp, by simp, fun id => ?_⟩
    rw [show _ = _ from Table.lookup_deleteWhere s.rows p id]
    cases hr : s.rows.lookup id with
    | none => exact .kept (by simp)
    | some r =>
      cases hp : p id r with
      | true =>
        rw [Option.filter_some_neg (by simp [hp])]
        exact .gone (by simp)
      | false =>
        rw [Option.filter_some_pos (by simp [hp])]
        exact .kept (by simp)

theorem Next.known (next : Next o s shown s') (known : s.Known) : s'.Known := by
  intro id r h
  obtain ⟨drawn, hids, -, hrow⟩ := next.row known
  have step := hrow id
  rw [h] at step
  rw [hids]
  generalize hold : s.rows.lookup id = old at step
  cases step with
  | enqueued still new => exact List.mem_append_right _ new
  | _ => exact List.mem_append_left _ (known id _ hold)

/-! Executable steps. -/

/-- One step; those of a worker name it first. -/
inductive Turn where
  | enqueue (now : Int) (id : Bytes) (m : AccountEmail)
  | expire (w : Nat) (now : Int)
  | clear (w : Nat) (now : Int)
  | claim (w : Nat) (now : Int)
  | delivered (w : Nat) (now : Int)
  | failed (w : Nat) (now : Int) (message : Bytes)
  | back (w : Nat) (now : Int)

def Turn.play (o : Settings) (s : System) : Turn → Option (List Event × System)
  | .enqueue now id m =>
    if id ∈ s.ids then none
    else some ([], { s with
      rows := Notifications.enqueue now id m s.rows, ids := s.ids ++ [id], now := now })
  | .expire w now =>
    if s.workers w = .idle then some ([], s.move now (Notifications.expire now s.rows) w .expired)
    else none
  | .clear w now =>
    if s.workers w = .expired then some ([], s.move now (clearUnsealed now s.rows) w .cleared)
    else none
  | .claim w now =>
    if s.workers w = .cleared then
      let taken := Notifications.claim o now (fun _ => false) (pollLimit batchSize) s.rows
      some (handing o now w (candidates now (fun _ => false) (pollLimit batchSize) s.rows),
        s.move now taken.2 w (.holding taken.1))
    else none
  | .delivered w now =>
    match s.workers w with
    | .holding (item :: items) =>
      some ([.marked w item.id (item.lease o) (markDelivered now item.id s.rows).isSome],
        s.move now ((markDelivered now item.id s.rows).getD s.rows) w (.holding items))
    | _ => none
  | .failed w now message =>
    match s.workers w with
    | .holding (item :: items) =>
      some ([.marked w item.id (item.lease o) (markFailed o now item.id message s.rows).isSome],
        s.move now ((markFailed o now item.id message s.rows).getD s.rows) w (.holding items))
    | _ => none
  | .back w now => some ([], s.move now s.rows w .idle)

theorem Turn.play_next {turn : Turn} (h : turn.play o s = some (shown, s')) : Next o s shown s' := by
  cases turn with
  | enqueue now id m =>
    obtain ⟨fresh, h⟩ := Option.ite_none_left_eq_some.mp h
    cases h
    exact .enqueue now id m fresh
  | expire w now =>
    obtain ⟨at_, h⟩ := Option.ite_none_right_eq_some.mp h
    cases h
    exact .expire now at_
  | clear w now =>
    obtain ⟨at_, h⟩ := Option.ite_none_right_eq_some.mp h
    cases h
    exact .clear now at_
  | claim w now =>
    obtain ⟨at_, h⟩ := Option.ite_none_right_eq_some.mp h
    cases h
    exact .claim now _ at_
  | delivered w now =>
    dsimp only [play] at h
    split at h
    · next at_ =>
      cases h
      exact .delivered now at_
    · cases h
  | failed w now message =>
    dsimp only [play] at h
    split at h
    · next at_ =>
      cases h
      exact .failed now message at_
    · cases h
  | back w now =>
    cases h
    exact .back now

/-- What the turns lead to from the empty outbox. -/
def playAll (o : Settings) (turns : List Turn) : List Event × System :=
  History.playAll (fun turn s => turn.play o s) turns ([], .init)

theorem playAll_run (turns : List Turn) : Run o (playAll o turns).1 (playAll o turns).2 :=
  History.playAll_path (fun _ _ _ _ => Turn.play_next) (.refl trivial)

namespace Demo

/-- An outbox with one message, which is good for an hour. -/
def messageID : Bytes := [1]

def queued : List Turn :=
  [.enqueue 0 messageID ⟨utf8 "support_reply", utf8 "ada@example.com", [], 60 * minute, [], [], false⟩]

/-- `Poll` by worker `w`, its statements at one time. -/
def poll (w : Nat) (now : Int) : List Turn := [.expire w now, .clear w now, .claim w now]

end Demo

end Sesame.Notifications
