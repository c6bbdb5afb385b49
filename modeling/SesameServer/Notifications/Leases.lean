import SesameServer.Notifications.Outbox

/- Who may touch a row that is leased. The marks name a row and ask that it is leased, not to
   whom: a worker that marks after its own lease has run out marks the lease of another.

   1. `TimelyNext` — a step with the time it takes effect, which may be after its `now()`: the
      effects come in order, and no worker's mark takes effect after its own lease.
   2. `Leased` — the invariant: a handing out whose lease still runs and that its worker has
      not marked is the lease of the row, and belongs to one worker.
   3. `leases_exclusive` — so no other poll and no other worker's mark touches the row.
   4. `Demo.late_mark` — a mark that comes late opens another worker's row. -/
namespace Sesame.Notifications
open History

def Event.MarkedBy (w : Nat) (id : Bytes) : Event → Prop
  | .handed _ _ _ _ => False
  | .marked v k _ _ => v = w ∧ k = id

/-- `id` was handed out to `w` until `lease`, and `w` has not marked it since. -/
def Held (w : Nat) (id : Bytes) (lease : Int) (es : List Event) : Prop :=
  ∃ again, ClearSince (.handed w id lease again) (fun e => ¬e.MarkedBy w id) es

/-- The outbox, and when the last statement took effect. -/
structure Timed extends System where
  effect : Int

/-- `now()` is the start of a statement. It may wait for a lock, and what it finds then is what it
    works on. -/
structure TimelyNext (o : Settings) (s : Timed) (shown : List Event) (s' : Timed) : Prop where
  next : Next o s.toSystem shown s'.toSystem
  began : s'.now ≤ s'.effect
  ordered : s.effect ≤ s'.effect
  timely : ∀ w id lease changed, .marked w id lease changed ∈ shown → s'.effect < lease

/-- A run of such steps from an empty outbox, at any time. -/
def TimelyRun (o : Settings) (start : Int) (es : List Event) (s : Timed) : Prop :=
  Path (TimelyNext o) (fun _ => True) ⟨System.init, start⟩ es s

variable {o : Settings} {start : Int} {es shown : List Event} {s s' : Timed} {w w' : Nat}
  {id : Bytes} {lease lease' : Int}

theorem Held.append (held : Held w id lease (es ++ shown)) :
    (Held w id lease es ∧ ∀ e ∈ shown, ¬e.MarkedBy w id) ∨ ∃ again, .handed w id lease again ∈ shown := by
  obtain ⟨again, h⟩ := held
  exact h.append.imp (fun ⟨h, hfine⟩ => ⟨⟨again, h⟩, hfine⟩) fun h => ⟨again, h⟩

theorem Held.later (held : Held w id lease es) (h : ∀ e ∈ shown, ¬e.MarkedBy w id) :
    Held w id lease (es ++ shown) := by
  obtain ⟨again, held⟩ := held
  exact ⟨again, held.later h⟩

/-- The row is leased until then, or it is closed. -/
def OutboxRow.LeasedUntil (lease : Int) (r : OutboxRow) : Prop :=
  r.status = .failed ∨ r.status = .processing ∧ r.leaseUntil = some lease

theorem OutboxRow.LeasedUntil.not_due {r : OutboxRow} {now : Int} (h : r.LeasedUntil lease)
    (unexpired : now < lease) : r.due now = false := by
  rcases h with h | ⟨h, hlease⟩
  · simp [due, h]
  · simp [due, h, hlease]
    omega

/-- The items of a worker are ones it was handed, each of them once. -/
def Worker.Holds (o : Settings) (w : Nat) (es : List Event) : Worker → Prop
  | .holding items => (items.map (·.id)).Nodup ∧ ∀ item ∈ items, Held w item.id (item.lease o) es
  | _ => True

structure Leased (o : Settings) (es : List Event) (s : Timed) : Prop where
  known : s.Known
  handed : ∀ w id lease again, .handed w id lease again ∈ es → id ∈ s.ids
  rows : ∀ w id lease r, Held w id lease es → s.effect < lease → s.rows.lookup id = some r →
    r.LeasedUntil lease
  one : ∀ w w' id lease lease', Held w id lease es → Held w' id lease' es → s.effect < lease →
    s.effect < lease' → w = w'
  workers : ∀ w, (s.workers w).Holds o w es

theorem Leased.init : Leased o [] ⟨System.init, start⟩ where
  known _ _ h := by cases h
  handed _ _ _ _ h := by cases h
  rows _ _ _ _ held := by
    obtain ⟨_, before, after, h, -⟩ := held
    cases before <;> cases h
  one _ _ _ _ _ held := by
    obtain ⟨_, before, after, h, -⟩ := held
    cases before <;> cases h
  workers _ := trivial

/-! What a step shows. -/

/-- A row that is handed out was due, and is handed out to one worker. -/
theorem RowStep.handed_once {now : Int} {drawn : List Bytes} {old new : Option OutboxRow} {again : Bool}
    (step : RowStep o now drawn shown id old new) (h : .handed w id lease again ∈ shown) :
    ∃ r, old = some r ∧ r.due now = true ∧ new = some (r.lease o now) ∧ lease = now + o.leaseDuration ∧
      ∀ w' lease' again', .handed w' id lease' again' ∈ shown → w' = w := by
  cases step with
  | kept still | gone still => simpa [Event.touches] using still _ h
  | enqueued still => simp [still] at h
  | closed still => simp [still] at h
  | marked hshown =>
    obtain ⟨_, _, rfl⟩ := hshown
    simp at h
  | @handed r due once =>
    obtain ⟨v, before, after, rfl, hbefore, hafter⟩ := once
    have only : ∀ w lease again, Event.handed w id lease again ∈
        before ++ .handed v id (now + o.leaseDuration) (r.status == .processing) :: after →
        w = v ∧ lease = now + o.leaseDuration := by
      intro w lease again h
      rcases List.mem_append.mp h with h | h
      · simpa [Event.touches] using hbefore _ h
      · rcases List.mem_cons.mp h with h | h
        · cases h
          exact ⟨rfl, rfl⟩
        · simpa [Event.touches] using hafter _ h
    refine ⟨r, rfl, due, rfl, (only w lease again h).2, fun w' lease' again' h' => ?_⟩
    rw [(only w' lease' again' h').1, (only w lease again h).1]

theorem Next.marks {s s' : System} {changed : Bool} (next : Next o s shown s')
    (h : .marked w id lease changed ∈ shown) :
    ∃ item items, s.workers w = .holding (item :: items) ∧ item.id = id ∧ item.lease o = lease := by
  cases next with
  | delivered now at_ | failed now message at_ =>
    cases List.mem_singleton.mp h
    exact ⟨_, _, at_, rfl, rfl⟩
  | claim => simp [handing] at h
  | _ => cases h

section
variable (leased : Leased o es s) (next : TimelyNext o s shown s')
include leased next

/-- **No other poll and no other worker's mark**: one step. -/
theorem Leased.exclusive (held : Held w id lease es) (unexpired : s'.effect < lease) :
    (∀ w' lease' again, .handed w' id lease' again ∉ shown) ∧
    ∀ w' lease' changed, .marked w' id lease' changed ∈ shown → w' = w := by
  have before := Int.lt_of_le_of_lt next.ordered unexpired
  refine ⟨fun w' lease' again h => ?_, fun w' lease' changed h => ?_⟩
  · obtain ⟨drawn, -, -, hrow⟩ := next.next.row leased.known
    obtain ⟨r, hr, hdue, -⟩ := (hrow id).handed_once h
    rw [(leased.rows w id lease r held before hr).not_due
      (Int.lt_of_le_of_lt next.began unexpired)] at hdue
    cases hdue
  · -- the one that marks has a lease that runs as well
    obtain ⟨item, items, hworker, rfl, rfl⟩ := next.next.marks h
    have holds := leased.workers w'
    rw [hworker] at holds
    exact leased.one _ _ _ _ _ (holds.2 item List.mem_cons_self) held
      (Int.lt_of_le_of_lt next.ordered (next.timely _ _ _ _ h)) before

theorem Leased.next_handed {again : Bool}
    (h : .handed w id lease again ∈ es ++ shown) : id ∈ s'.ids := by
  obtain ⟨drawn, hids, -, hrow⟩ := next.next.row leased.known
  rw [hids]
  refine List.mem_append_left _ ?_
  rcases List.mem_append.mp h with h | h
  · exact leased.handed w id lease again h
  · obtain ⟨r, hr, -⟩ := (hrow id).handed_once h
    exact leased.known id r hr

theorem Leased.next_rows {r : OutboxRow} (held : Held w id lease (es ++ shown))
    (unexpired : s'.effect < lease) (hr : s'.rows.lookup id = some r) : r.LeasedUntil lease := by
  obtain ⟨drawn, -, hnew, hrow⟩ := next.next.row leased.known
  have step := hrow id
  rw [hr] at step
  rcases held.append with ⟨held, hfine⟩ | ⟨again, h⟩
  · obtain ⟨hhanded, hmarked⟩ := leased.exclusive next held unexpired
    have hlast := fun r => leased.rows w id lease r held (Int.lt_of_le_of_lt next.ordered unexpired)
    generalize hold : s.rows.lookup id = old at step
    cases step with
    | kept => exact hlast r hold
    | enqueued _ new =>
      -- the id was drawn before
      obtain ⟨again, before, after, heq, -⟩ := held
      exact absurd (leased.handed w id lease again (by simp [heq])) (hnew id new)
    | closed _ failed => exact .inl failed
    | @handed r _ once =>
      obtain ⟨v, before, after, heq, -⟩ := once
      refine absurd ?_ (hhanded v (s'.now + o.leaseDuration) (r.status == .processing))
      rw [heq]
      simp
    | marked hshown =>
      obtain ⟨v, lease', rfl⟩ := hshown
      obtain rfl := hmarked v lease' true (List.mem_singleton_self _)
      exact absurd ⟨rfl, rfl⟩ (hfine _ (List.mem_singleton_self _))
  · obtain ⟨r', -, -, hlease, rfl, -⟩ := step.handed_once h
    cases hlease
    exact .inr ⟨rfl, rfl⟩

theorem Leased.next_one
    (held : Held w id lease (es ++ shown)) (held' : Held w' id lease' (es ++ shown))
    (unexpired : s'.effect < lease) (unexpired' : s'.effect < lease') : w = w' := by
  rcases held.append with ⟨held, -⟩ | ⟨again, h⟩
  · rcases held'.append with ⟨held', -⟩ | ⟨again', h'⟩
    · exact leased.one w w' id lease lease' held held' (Int.lt_of_le_of_lt next.ordered unexpired)
        (Int.lt_of_le_of_lt next.ordered unexpired')
    · exact absurd h' ((leased.exclusive next held unexpired).1 w' lease' again')
  · rcases held'.append with ⟨held', -⟩ | ⟨again', h'⟩
    · exact absurd h ((leased.exclusive next held' unexpired').1 w lease again)
    · obtain ⟨drawn, -, -, hrow⟩ := next.next.row leased.known
      obtain ⟨-, -, -, -, -, only⟩ := (hrow id).handed_once h'
      exact only w lease again h

end

theorem claim_holds (now : Int) (locked : Bytes → Bool) (limit : Nat) (rows : Rows) :
    (Worker.holding (claim o now locked limit rows).1).Holds o w
      (es ++ handing o now w (candidates now locked limit rows)) := by
  have hids : ((claim o now locked limit rows).1.map (·.id)) =
      (candidates now locked limit rows).map Prod.fst := by
    simp [claim, OutboxItem.of, Function.comp_def]
  refine ⟨hids ▸ nodup_candidates now locked limit rows, fun item hitem => ?_⟩
  obtain ⟨e, he, rfl⟩ := List.mem_map.mp hitem
  refine ⟨e.2.status == .processing, .of_mem (List.mem_map.mpr ⟨e, he, rfl⟩) fun x hx => ?_⟩
  obtain ⟨y, -, rfl⟩ := List.mem_map.mp hx
  exact id

/-- What a worker holds stays its own under the steps that do not mark it. -/
theorem Worker.Holds.later {worker : Worker} (holds : worker.Holds o w es)
    (h : ∀ e ∈ shown, ∀ id, ¬e.MarkedBy w id) : worker.Holds o w (es ++ shown) := by
  cases worker with
  | holding items => exact ⟨holds.1, fun item hitem => (holds.2 item hitem).later fun e he => h e he _⟩
  | _ => trivial

theorem Worker.Holds.rest {item : OutboxItem} {items : List OutboxItem} {changed : Bool}
    (holds : (Worker.holding (item :: items)).Holds o w es) :
    (Worker.holding items).Holds o w (es ++ [.marked w item.id lease changed]) := by
  obtain ⟨hnodup, hitems⟩ := holds
  rw [List.map_cons, List.nodup_cons] at hnodup
  refine ⟨hnodup.2, fun other hother => (hitems other (List.mem_cons_of_mem _ hother)).later ?_⟩
  intro e he
  cases List.mem_singleton.mp he
  intro ⟨_, heq⟩
  exact hnodup.1 (heq ▸ List.mem_map_of_mem hother)

theorem Leased.moved {v : Nat} {now : Int} {rows : Rows} {at_ : Worker} (leased : Leased o es s)
    (h : ∀ e ∈ shown, ∀ w id, e.MarkedBy w id → w = v) (holds : at_.Holds o v (es ++ shown)) (w : Nat) :
    ((s.move now rows v at_).workers w).Holds o w (es ++ shown) := by
  dsimp only [System.move]
  split
  · next heq => exact heq ▸ holds
  · next hne => exact (leased.workers w).later fun e he id hmarked => hne (h e he w id hmarked)

theorem Leased.next_workers {after : System} (leased : Leased o es s)
    (next : Next o s.toSystem shown after) (w : Nat) : (after.workers w).Holds o w (es ++ shown) := by
  cases next with
  | enqueue | purge => exact (leased.workers w).later (by simp)
  | expire => exact leased.moved (by simp) (show Worker.Holds o _ _ .expired from trivial) w
  | clear => exact leased.moved (by simp) (show Worker.Holds o _ _ .cleared from trivial) w
  | back => exact leased.moved (by simp) (show Worker.Holds o _ _ .idle from trivial) w
  | claim now locked =>
    refine leased.moved (fun e he w id h => ?_) (claim_holds now locked _ s.rows) w
    obtain ⟨y, -, rfl⟩ := List.mem_map.mp he
    exact absurd h (by simp [Event.MarkedBy])
  | @delivered v item items now at_ | @failed v item items now message at_ =>
    have holds := leased.workers v
    rw [at_] at holds
    exact leased.moved (by simp [Event.MarkedBy]) holds.rest w

theorem Leased.next (leased : Leased o es s) (next : TimelyNext o s shown s') :
    Leased o (es ++ shown) s' where
  known := next.next.known leased.known
  handed _ _ _ _ h := leased.next_handed next h
  rows _ _ _ _ held unexpired h := leased.next_rows next held unexpired h
  one _ _ _ _ _ held held' h h' := leased.next_one next held held' h h'
  workers w := leased.next_workers next.next w

theorem TimelyRun.leased (run : TimelyRun o start es s) : Leased o es s :=
  run.always .init fun _ _ _ _ _ leased next _ => leased.next next

/-- **A lease is exclusive among workers that mark in time.** In every run whose statements take
    effect in the order of time, none before it began, and in which no worker's mark takes effect
    after its own lease has run out: while a row that was handed out has an unexpired lease and its
    worker has not marked it, no poll hands it out and no other worker's mark changes it. -/
theorem leases_exclusive (run : TimelyRun o start es s) (next : TimelyNext o s shown s')
    {again : Bool} (held : ClearSince (.handed w id lease again) (fun e => ¬e.MarkedBy w id) es)
    (unexpired : s'.effect < lease) : (∀ w' lease' again', .handed w' id lease' again' ∉ shown) ∧
    ∀ w' lease', .marked w' id lease' true ∈ shown → w' = w := by
  obtain ⟨hhanded, hmarked⟩ := run.leased.exclusive next ⟨again, held⟩ unexpired
  exact ⟨hhanded, fun w' lease' => hmarked w' lease' true⟩

/-- A turn and the time it takes effect, if its step is timely. -/
def playTimely (o : Settings) (turn : Turn × Int) (s : Timed) : Option (List Event × Timed) :=
  ((turn.1.play o s.toSystem).filter fun (shown, s') =>
    decide (s'.now ≤ turn.2 ∧ s.effect ≤ turn.2) && shown.all fun
      | .marked _ _ lease _ => decide (turn.2 < lease)
      | .handed _ _ _ _ => true).map fun (shown, s') => (shown, ⟨s', turn.2⟩)

theorem playTimely_next {turn : Turn × Int} (h : playTimely o turn s = some (shown, s')) :
    TimelyNext o s shown s' := by
  obtain ⟨⟨shown, after⟩, hplayed, heq⟩ := Option.map_eq_some_iff.mp h
  cases heq
  obtain ⟨hplay, hcond⟩ := Option.filter_eq_some_iff.mp hplayed
  simp only [Bool.and_eq_true, decide_eq_true_eq, List.all_eq_true] at hcond
  exact ⟨Turn.play_next hplay, hcond.1.1, hcond.1.2, fun w id lease changed hmem => by
    simpa using hcond.2 _ hmem⟩

namespace Demo

/-- Worker 1 has the message since minute 0; worker 2 is about to claim, in minute 4. -/
def busy : List Event × Timed :=
  History.playAll (playTimely NewPostgresOutbox)
    ((queued ++ poll 1 0).map (·, second) ++
      [(.expire 2 (4 * minute), 4 * minute), (.clear 2 (4 * minute), 4 * minute)])
    ([], ⟨.init, 0⟩)

/-- Worker 2 has to wait for a second, and gets nothing. -/
def secondClaim : Turn × Int := (.claim 2 (4 * minute), 4 * minute + second)

theorem second_poll_empty : ∃ shown s',
    playTimely NewPostgresOutbox secondClaim busy.2 = some (shown, s') ∧
    (∀ w' lease' again', .handed w' messageID lease' again' ∉ shown) ∧
    ∀ w' lease', .marked w' messageID lease' true ∈ shown → w' = 1 := by
  have run : TimelyRun NewPostgresOutbox 0 busy.1 busy.2 :=
    playAll_path (fun _ _ _ _ => playTimely_next) (.refl trivial)
  have held : ClearSince (.handed 1 messageID (5 * minute) false)
      (fun e => ¬e.MarkedBy 1 messageID) busy.1 := by
    rw [show busy.1 = [.handed 1 messageID (5 * minute) false] by decide +kernel]
    exact ⟨[], [], rfl, by simp⟩
  have hplay : (playTimely NewPostgresOutbox secondClaim busy.2).isSome = true := by decide +kernel
  obtain ⟨⟨shown, s'⟩, h⟩ := Option.isSome_iff_exists.mp hplay
  refine ⟨shown, s', h, leases_exclusive run (playTimely_next h) held ?_⟩
  have heffect : (playTimely NewPostgresOutbox secondClaim busy.2).all
      (fun x => decide (x.2.effect < 5 * minute)) = true := by decide +kernel
  rw [h] at heffect
  simpa using heffect

/-- Two workers get the message one after the other; then the first marks it, a second late, and
    a third polls. -/
def lateMark : List Event × System :=
  playAll NewPostgresOutbox (queued ++ poll 1 0 ++ poll 2 (5 * minute) ++
    [.failed 1 (5 * minute + second) (utf8 "smtp timeout")] ++ poll 3 (6 * minute + second))

/-- The mark of worker 1 changes the row that worker 2 has until minute 10, and in minute 6 it is
    handed out to worker 3 too. -/
theorem late_mark : Run NewPostgresOutbox lateMark.1 lateMark.2 ∧
    lateMark.1 = [.handed 1 messageID (5 * minute) false, .handed 2 messageID (10 * minute) true,
      .marked 1 messageID (5 * minute) true, .handed 3 messageID (11 * minute + second) false] ∧
    lateMark.2.now < 10 * minute :=
  ⟨playAll_run _, by decide +kernel, by decide +kernel⟩

end Demo

end Sesame.Notifications
