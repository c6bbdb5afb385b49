import SesameServer.Notifications.Outbox

/- How often a message is tried. `attempts` is counted by the marks alone: a worker that stops
   between `Poll` and its mark leaves the row leased, and when the lease has run out the row
   is handed out again with the same count.

   1. `Spent` — the invariant: every mark that changed the row is counted in it, and so is
      every first handing out, the last one excepted while the row is leased.
   2. `attempts_bounded` — so the cutoff bounds the marks, and the handings out that are not
      repeats of a lease that ran out.
   3. `Demo.handed_nine_times` — the repeats have no bound of their own.
   4. `finished_untouched` — a message that is finished stays so. -/
namespace Sesame.Notifications

def Event.hands (id : Bytes) : Event → Bool
  | .handed _ k _ _ => k == id
  | .marked _ _ _ _ => false

/-- The row was handed out although it was leased; the lease had run out. -/
def Event.handsAgain (id : Bytes) : Event → Bool
  | .handed _ k _ again => k == id && again
  | .marked _ _ _ _ => false

def Event.handsFirst (id : Bytes) : Event → Bool
  | .handed _ k _ again => k == id && !again
  | .marked _ _ _ _ => false

def Event.marks (id : Bytes) : Event → Bool
  | .handed _ _ _ _ => false
  | .marked _ k _ changed => k == id && changed

theorem countP_hands (id : Bytes) (es : List Event) : es.countP (Event.hands id) =
    es.countP (Event.handsFirst id) + es.countP (Event.handsAgain id) := by
  induction es with
  | nil => rfl
  | cons e es ih =>
    rw [List.countP_cons, List.countP_cons, List.countP_cons, ih]
    cases e with
    | handed w k lease again =>
      cases again <;> simp [Event.hands, Event.handsFirst, Event.handsAgain] <;> omega
    | marked => simp [Event.hands, Event.handsFirst, Event.handsAgain]

theorem countP_untouched {id : Bytes} {es : List Event} (h : ∀ e ∈ es, e.touches id = false) :
    es.countP (Event.handsFirst id) = 0 ∧ es.countP (Event.marks id) = 0 := by
  refine ⟨List.countP_eq_zero.mpr fun e he => ?_, List.countP_eq_zero.mpr fun e he => ?_⟩
  · have := h e he
    cases e <;> simp_all [Event.touches, Event.handsFirst]
  · have := h e he
    cases e <;> simp_all [Event.touches, Event.marks]

variable {o : Settings} {es shown : List Event} {s s' : System}

/-- What the row `id` has left, after `first` first handings out and `marks` marks. -/
def OutboxRow.Left (o : Settings) (first marks : Nat) (r : OutboxRow) : Prop :=
  marks ≤ r.attempts ∧ r.attempts ≤ o.maxAttempts ∧
    (r.status = .pending → first ≤ r.attempts ∧ r.attempts < o.maxAttempts) ∧
    (r.status = .processing → first ≤ r.attempts + 1 ∧ r.attempts < o.maxAttempts)

structure Spent (o : Settings) (es : List Event) (s : System) : Prop where
  first : ∀ id, es.countP (Event.handsFirst id) ≤ o.maxAttempts
  marks : ∀ id, es.countP (Event.marks id) ≤ o.maxAttempts
  unused : ∀ id, id ∉ s.ids → es.countP (Event.handsFirst id) = 0 ∧ es.countP (Event.marks id) = 0
  rows : ∀ id r, s.rows.lookup id = some r →
    r.Left o (es.countP (Event.handsFirst id)) (es.countP (Event.marks id))

theorem Spent.init : Spent o [] .init where
  first _ := Nat.zero_le _
  marks _ := Nat.zero_le _
  unused _ _ := ⟨rfl, rfl⟩
  rows _ _ h := by cases h

/-- What a step adds to the counts of a row, and what that leaves. -/
theorem RowStep.spent {now : Int} {drawn : List Bytes} {id : Bytes} {old new : Option OutboxRow}
    {first marks : Nat} (step : RowStep o now drawn shown id old new)
    (hfirst : first ≤ o.maxAttempts) (hmarks : marks ≤ o.maxAttempts)
    (hold : ∀ r, old = some r → r.Left o first marks) (hnew : id ∈ drawn → first = 0 ∧ marks = 0) :
    first + shown.countP (Event.handsFirst id) ≤ o.maxAttempts ∧
    marks + shown.countP (Event.marks id) ≤ o.maxAttempts ∧
    ∀ r, new = some r → r.Left o (first + shown.countP (Event.handsFirst id))
      (marks + shown.countP (Event.marks id)) := by
  have hpos := o.attempts_pos
  cases step with
  | kept still =>
    obtain ⟨hf, hm⟩ := countP_untouched still
    rw [hf, hm]
    exact ⟨hfirst, hmarks, hold⟩
  | gone still =>
    obtain ⟨hf, hm⟩ := countP_untouched still
    rw [hf, hm]
    exact ⟨hfirst, hmarks, fun r h => by cases h⟩
  | enqueued still new pending attempts =>
    obtain ⟨rfl, rfl⟩ := hnew new
    subst still
    refine ⟨by simp, by simp, fun r h => ?_⟩
    cases h
    simp [OutboxRow.Left, pending, attempts, hpos]
  | @closed r r' still failed attempts =>
    subst still
    obtain ⟨h₁, h₂, -, -⟩ := hold r rfl
    refine ⟨hfirst, hmarks, fun x h => ?_⟩
    cases h
    simpa [OutboxRow.Left, failed, attempts] using ⟨h₁, h₂⟩
  | @handed r due once =>
    obtain ⟨w, before, after, rfl, hbefore, hafter⟩ := once
    obtain ⟨hf, hm⟩ := countP_untouched hbefore
    obtain ⟨hf', hm'⟩ := countP_untouched hafter
    obtain ⟨h₁, h₂, h₃, h₄⟩ := hold r rfl
    have hstatus : r.status = .pending ∨ r.status = .processing := by
      simp only [OutboxRow.due, Bool.and_eq_true, Bool.or_eq_true, beq_iff_eq] at due
      exact due.2.imp And.left And.left
    -- a row that was leased is handed out again and counts nothing
    rcases hstatus with hstatus | hstatus
    · obtain ⟨hle, hlt⟩ := h₃ hstatus
      simp only [List.countP_append, List.countP_cons, hf, hm, hf', hm', Event.handsFirst, Event.marks,
        hstatus, beq_self_eq_true]
      refine ⟨by simp; omega, by simpa using hmarks, fun x h => ?_⟩
      cases h
      simp [OutboxRow.Left, OutboxRow.lease]
      omega
    · obtain ⟨hle, hlt⟩ := h₄ hstatus
      simp only [List.countP_append, List.countP_cons, hf, hm, hf', hm', Event.handsFirst, Event.marks,
        hstatus, beq_self_eq_true]
      refine ⟨by simpa using hfirst, by simpa using hmarks, fun x h => ?_⟩
      cases h
      simp [OutboxRow.Left, OutboxRow.lease]
      omega
  | @marked r r' hshown processing hnew =>
    obtain ⟨w, lease, rfl⟩ := hshown
    obtain ⟨h₁, h₂, -, h₄⟩ := hold r rfl
    obtain ⟨hle, hlt⟩ := h₄ processing
    simp only [List.countP_singleton, Event.handsFirst, Event.marks, beq_self_eq_true, Bool.true_and,
      if_true, Bool.false_eq_true, if_false]
    refine ⟨by simpa using hfirst, by simp; omega, fun x h => ?_⟩
    cases h
    rcases hnew with rfl | ⟨message, rfl⟩
    · simp [OutboxRow.Left, OutboxRow.markDelivered]
      omega
    · simp only [OutboxRow.Left, OutboxRow.markFailed]
      split
      · simp
        omega
      · next hmore =>
        have hmore : r.attempts + 1 < o.maxAttempts := by
          push Not at hmore
          exact hmore.1
        simp
        omega

theorem Spent.next (spent : Spent o es s) (known : s.Known) (next : Next o s shown s') :
    Spent o (es ++ shown) s' := by
  obtain ⟨drawn, hids, hnew, hrow⟩ := next.row known
  have step := fun id => (hrow id).spent (spent.first id) (spent.marks id) (spent.rows id)
    fun h => spent.unused id (hnew id h)
  simp only [← List.countP_append] at step
  refine ⟨fun id => (step id).1, fun id => (step id).2.1, fun id h => ?_, fun id => (step id).2.2⟩
  rw [hids, List.mem_append, not_or] at h
  have hnone : s.rows.lookup id = none := by
    cases hr : s.rows.lookup id with
    | none => rfl
    | some r => exact absurd (known id r hr) h.1
  have hstep := hrow id
  rw [hnone] at hstep
  have still : ∀ e ∈ shown, e.touches id = false := by
    generalize s'.rows.lookup id = new at hstep
    cases hstep with
    | kept still => exact still
    | gone still => exact still
    | enqueued _ new => exact absurd new h.2
  obtain ⟨hf, hm⟩ := countP_untouched still
  obtain ⟨hf₀, hm₀⟩ := spent.unused id h.1
  simp [List.countP_append, hf, hm, hf₀, hm₀]

theorem Run.spent (run : Run o es s) : Spent o es s :=
  (run.always (Q := fun es s => Spent o es s ∧ s.Known) ⟨.init, fun _ _ h => by cases h⟩
    fun _ _ _ _ _ now next _ => ⟨now.1.next now.2 next, next.known now.2⟩).1

/-- **A message is handed out at most `maxAttempts` times, and once more for each lease on it
    that ran out without a mark; and it is marked at most `maxAttempts` times.** In any run,
    of any number of workers that may stop anywhere, at any times. -/
theorem attempts_bounded (run : Run o es s) (id : Bytes) :
    es.countP (Event.hands id) ≤ o.maxAttempts + es.countP (Event.handsAgain id) ∧
    es.countP (Event.marks id) ≤ o.maxAttempts := by
  refine ⟨?_, run.spent.marks id⟩
  have hfirst := run.spent.first id
  rw [countP_hands]
  omega

/-- **A finished message is left alone.** Once it is delivered or has failed, no poll hands it
    out and no mark changes it. -/
theorem finished_untouched (run : Run o es s) {id : Bytes} {r : OutboxRow}
    (row : s.rows.lookup id = some r) (finished : r.isOpen = false) {later : List Event}
    (path : History.Path (Next o) (fun _ => True) s later s') : ∀ e ∈ later, e.touches id = false := by
  have known : s.Known := run.always (Q := fun _ s => s.Known) (fun _ _ h => by cases h)
    fun _ _ _ _ _ known next _ => next.known known
  refine (path.always (Q := fun later s => (s.Known ∧ id ∈ s.ids ∧
    ∀ r, s.rows.lookup id = some r → r.isOpen = false) ∧ ∀ e ∈ later, e.touches id = false)
    ⟨⟨known, known id r row, by simpa [row] using finished⟩, by simp⟩ ?_).2
  rintro later s shown s' - ⟨⟨known, drawn, finished⟩, untouched⟩ next -
  obtain ⟨new, hids, fresh, hrow⟩ := next.row known
  have hstep := hrow id
  have after : (∀ r, s'.rows.lookup id = some r → r.isOpen = false) ∧ ∀ e ∈ shown, e.touches id = false := by
    generalize s.rows.lookup id = old at finished hstep
    generalize s'.rows.lookup id = row at hstep
    cases hstep with
    | kept still => exact ⟨finished, still⟩
    | gone still => exact ⟨nofun, still⟩
    | enqueued _ new => exact absurd drawn (fresh id new)
    | closed still failed => exact ⟨by rintro _ ⟨⟩; simp [OutboxRow.isOpen, failed], by simp [still]⟩
    | handed due =>
      have := finished _ rfl
      simp_all [OutboxRow.isOpen, OutboxRow.due]
    | marked _ processing =>
      have := finished _ rfl
      simp [OutboxRow.isOpen, processing] at this
  exact ⟨⟨next.known known, hids ▸ List.mem_append_left _ drawn, after.1⟩,
    List.forall_mem_append.mpr ⟨untouched, after.2⟩⟩

namespace Demo

/-- Nine workers poll, five minutes apart; each of them stops before its mark. -/
def nineStops : List Event × System :=
  playAll NewPostgresOutbox (queued ++ (List.range 9).flatMap fun n => poll n (n * (5 * minute)))

/-- The message is handed out nine times, with 20 minutes left until it expires and a cutoff of
    8. -/
theorem handed_nine_times :
    Run NewPostgresOutbox nineStops.1 nineStops.2 ∧ NewPostgresOutbox.maxAttempts = 8 ∧
    nineStops.1.countP (Event.hands messageID) = 9 ∧
    (nineStops.2.rows.lookup messageID).any (fun r => decide (nineStops.2.now < r.expiresAt)) = true :=
  ⟨playAll_run _, rfl, by decide +kernel, by decide +kernel⟩

/-- The eight that come after the first are repeats. -/
theorem nine_stops_bounded : nineStops.1.countP (Event.handsAgain messageID) = 8 ∧
    nineStops.1.countP (Event.hands messageID) ≤ 8 + 8 ∧
    nineStops.1.countP (Event.marks messageID) ≤ 8 := by
  have hagain : nineStops.1.countP (Event.handsAgain messageID) = 8 := by decide +kernel
  have run : Run NewPostgresOutbox nineStops.1 nineStops.2 := playAll_run _
  obtain ⟨hhands, hmarks⟩ := attempts_bounded run messageID
  rw [hagain] at hhands
  exact ⟨hagain, hhands, hmarks⟩

def sent : List Event × System := playAll NewPostgresOutbox (queued ++ poll 1 0 ++ [.delivered 1 second])

theorem sent_untouched : ∃ r, sent.2.rows.lookup messageID = some r ∧ r.isOpen = false ∧
    ∀ e ∈ (History.playAll (fun turn s => turn.play NewPostgresOutbox s)
      (poll 2 (6 * minute)) ([], sent.2)).1, e.touches messageID = false := by
  have hrow : (sent.2.rows.lookup messageID).map OutboxRow.isOpen = some false := by decide +kernel
  obtain ⟨r, row, finished⟩ := Option.map_eq_some_iff.mp hrow
  exact ⟨r, row, finished, finished_untouched (playAll_run _) row finished
    (History.playAll_path (fun _ _ _ _ => Turn.play_next) (.refl trivial))⟩

end Demo

end Sesame.Notifications
