import SesameServer.Selfhost.Specs

/- `Store.RateLimit` over time. A key has one row: the second in which its window started, the length
   of the window in whole seconds, and the calls counted in it. A call after the end of the window
   starts the next one; `Maintain` may delete the row as soon as its window is over.

   1. `Limited` — the calls on one key, among calls on other keys and runs of `Maintain`.
   2. `Windowed` — what holds of the row and of the calls answered so far, whatever the times were.
   3. `rateLimit_bounded` — the limit in each window, twice the limit in any shorter interval, and
      that waiting for `RetryAfter` is enough. -/
namespace Sesame.Selfhost
open Outcome

/-- `time.Second`, in nanoseconds. -/
def nanos : Int := 1000000000

/-- A call on the key that was answered: its time in nanoseconds, the start of the window that it was
    counted in, and the answer. -/
structure Attempt where
  time : Int
  started : Int
  decision : RateDecision
  deriving DecidableEq

/-- The calls on `key`, all with one limit and one window, up to a time. Time never runs back; the
    clock of the store is cut to whole seconds. -/
inductive Limited (key : Bytes) (limit window : Int) : Int → List Attempt → Db → Prop
  | start {db} (time : Int) : db.rateLimits.lookup key = none → Limited key limit window time [] db
  | attempt {last time attempts db db' env decision r} : Limited key limit window last attempts db →
      last ≤ time → env.clock 0 = time / nanos →
      write (rateLimit env key limit window) db = .ok (decision, db') →
      db'.rateLimits.lookup key = some r →
      Limited key limit window time (attempts ++ [⟨time, r.windowStartedAt, decision⟩]) db'
  | other {last time attempts db db' env decision key' limit' window'} :
      Limited key limit window last attempts db → last ≤ time → env.clock 0 = time / nanos →
      key' ≠ key → write (rateLimit env key' limit' window') db = .ok (decision, db') →
      Limited key limit window time attempts db'
  | maintain {last time attempts db db' env report} : Limited key limit window last attempts db →
      last ≤ time → env.clock 0 = time / nanos → write (maintain env) db = .ok (report, db') →
      Limited key limit window time attempts db'
  -- any call that leaves the counters alone
  | elsewhere {last time attempts db db'} : Limited key limit window last attempts db → last ≤ time →
      db'.rateLimits = db.rateLimits → Limited key limit window time attempts db'

variable {key : Bytes} {limit window seconds last time now : Int} {attempts : List Attempt}
  {env : Env} {db db' : Db} {row : Option RateRow} {decision : RateDecision}

/-- The calls that were allowed and of which `p` holds. -/
def allowed (p : Attempt → Bool) (attempts : List Attempt) : Nat :=
  attempts.countP fun a => a.decision.allowed && p a

/-! One call. -/

theorem write_ok {α : Type} {x : Tx α} {a : α} : write x db = .ok (a, db') ↔ x db = .ok a db' := by
  unfold write
  cases x db <;> simp

abbrev badLimit (key : Bytes) (limit window : Int) : Prop :=
  key = [] ∨ key.length > maxRateKeyLength ∨ limit ≤ 0 ∨ window < 1000000000

/-- The answer to a call that was counted in `r`. -/
def RateRow.answer (limit seconds now : Int) (r : RateRow) : RateDecision :=
  ⟨decide (r.attempts ≤ limit), max (limit - r.attempts) 0, max (r.windowStartedAt + seconds - now) 1⟩

theorem rateLimit_run (h : ¬badLimit key limit window) :
    let r := RateRow.next (env.clock 0) (window.tdiv nanos) (db.rateLimits.lookup key)
    write (rateLimit env key limit window) db = .ok (r.answer limit (window.tdiv nanos) (env.clock 0),
      { db with rateLimits := db.rateLimits.insert key r }) :=
  write_ok.mpr (bind_ok.mpr ⟨(), db, refuse_ok.mpr ⟨h, rfl⟩, rfl⟩)

theorem seconds_pos (h : ¬badLimit key limit window) : 0 < window.tdiv nanos := by
  have hwindow : nanos ≤ window := by
    simp only [badLimit, not_or, not_lt] at h
    exact h.2.2.2
  rw [Int.tdiv_eq_ediv_of_nonneg (le_trans (by decide) hwindow)]
  exact Int.le_ediv_of_mul_le (by decide) (by rwa [zero_add, one_mul])

theorem rateLimit_committed (h : write (rateLimit env key limit window) db = .ok (decision, db')) :
    let r := RateRow.next (env.clock 0) (window.tdiv nanos) (db.rateLimits.lookup key)
    ¬badLimit key limit window ∧ decision = r.answer limit (window.tdiv nanos) (env.clock 0) ∧
      db'.rateLimits = db.rateLimits.insert key r := by
  have hrun := write_ok.mp h
  simp only [rateLimit, bind_ok, get_ok, refuse_ok, set_ok, pure_ok] at hrun
  obtain ⟨_, _, ⟨hvalid, rfl⟩, _, _, ⟨rfl, rfl⟩, _, _, rfl, rfl, rfl⟩ := hrun
  exact ⟨hvalid, rfl, rfl⟩

theorem maintain_rateLimits {report : MaintenanceReport}
    (h : write (maintain env) db = .ok (report, db')) :
    db'.rateLimits = db.rateLimits.deleteWhere fun _ r =>
      decide (r.windowStartedAt + r.windowSeconds ≤ env.clock 0) := by
  rw [maintain_ok (write_ok.mp h)]
  rfl

/-! The windows of the calls. -/

/-- What holds of the answered calls and of the row at the time `last`. Every call lies in its window,
    and two windows are the same or do not overlap. -/
structure Windowed (limit seconds last : Int) (attempts : List Attempt) (row : Option RateRow) :
    Prop where
  inside : ∀ a ∈ attempts, a.started ≤ a.time / nanos ∧ a.time / nanos < a.started + seconds
  apart : ∀ a ∈ attempts, ∀ b ∈ attempts, a.started = b.started ∨ a.started + seconds ≤ b.started ∨
    b.started + seconds ≤ a.started
  counted : ∀ s, allowed (fun a => a.started == s) attempts ≤ limit.toNat
  waits : ∀ a ∈ attempts, a.started + seconds ≤ a.time / nanos + a.decision.retryAfter
  closed : row = none → ∀ a ∈ attempts, a.started + seconds ≤ last / nanos
  current : ∀ r, row = some r → r.windowSeconds = seconds ∧
    (∀ a ∈ attempts, a.started = r.windowStartedAt ∨ a.started + seconds ≤ r.windowStartedAt) ∧
    (allowed (fun a => a.started == r.windowStartedAt) attempts : Int) ≤ r.attempts ∧
    r.windowStartedAt ≤ last / nanos ∧ ∀ a, attempts.getLast? = some a → a.started = r.windowStartedAt

theorem allowed_snoc (p : Attempt → Bool) (a : Attempt) : allowed p (attempts ++ [a]) =
    allowed p attempts + if a.decision.allowed && p a then 1 else 0 := by
  simp [allowed, List.countP_append, List.countP_cons]

theorem unix_le {t t' : Int} (h : t ≤ t') : t / nanos ≤ t' / nanos :=
  Int.ediv_le_ediv (by decide) h

section
variable (h : Windowed limit seconds last attempts row)
include h

/-- The next call starts a window, and every earlier one is over, or it is counted in the row. -/
theorem Windowed.next (hlast : last / nanos ≤ now) :
    (RateRow.next now seconds row = ⟨now, seconds, 1⟩ ∧
      ∀ a ∈ attempts, a.started + seconds ≤ now) ∨
    ∃ r, row = some r ∧ now < r.windowStartedAt + seconds ∧
      RateRow.next now seconds row = ⟨r.windowStartedAt, seconds, r.attempts + 1⟩ := by
  cases row with
  | none => exact .inl ⟨rfl, fun a ha => (h.closed rfl a ha).trans hlast⟩
  | some r =>
    obtain ⟨hseconds, hearlier, -⟩ := h.current r rfl
    by_cases hover : r.windowStartedAt + r.windowSeconds ≤ now
    · refine .inl ⟨if_pos hover, fun a ha => ?_⟩
      have hpos := h.inside a ha
      rcases hearlier a ha with h | h <;> omega
    · exact .inr ⟨r, rfl, by omega, if_neg hover⟩

/-- One more call, counted as the `n`-th of the window that started at `s`. -/
theorem Windowed.snoc {s n : Int} (hstart : s ≤ time / nanos) (hend : time / nanos < s + seconds)
    (hearlier : ∀ a ∈ attempts, a.started = s ∨ a.started + seconds ≤ s)
    (hcount : (allowed (fun a => a.started == s) attempts : Int) + 1 ≤ n) :
    Windowed limit seconds time
      (attempts ++ [⟨time, s, RateRow.answer limit seconds (time / nanos) ⟨s, seconds, n⟩⟩])
      (some ⟨s, seconds, n⟩) := by
  refine ⟨fun a ha => ?_, fun a ha b hb => ?_, fun s' => ?_, fun a ha => ?_, nofun, ?_⟩
  · rcases List.mem_append.mp ha with ha | ha
    · exact h.inside a ha
    · rw [List.mem_singleton.mp ha]
      exact ⟨hstart, hend⟩
  · rcases List.mem_append.mp ha with ha | ha <;> rcases List.mem_append.mp hb with hb | hb
    · exact h.apart a ha b hb
    · rw [List.mem_singleton.mp hb]
      exact (hearlier a ha).imp_right .inl
    · rw [List.mem_singleton.mp ha]
      exact (hearlier b hb).imp Eq.symm .inr
    · rw [List.mem_singleton.mp ha, List.mem_singleton.mp hb]
      exact .inl rfl
  · have hs' := h.counted s'
    rw [allowed_snoc]
    split
    · next hyes =>
      simp only [RateRow.answer, Bool.and_eq_true, decide_eq_true_eq, beq_iff_eq] at hyes
      rw [← hyes.2] at hs' ⊢
      omega
    · simpa using hs'
  · rcases List.mem_append.mp ha with ha | ha
    · exact h.waits a ha
    · rw [List.mem_singleton.mp ha]
      show s + seconds ≤ time / nanos + max (s + seconds - time / nanos) 1
      omega
  · rintro _ ⟨⟩
    refine ⟨rfl, fun a ha => ?_, ?_, hstart, fun a ha => ?_⟩
    · rcases List.mem_append.mp ha with ha | ha
      · exact hearlier a ha
      · exact .inl (by rw [List.mem_singleton.mp ha])
    · rw [allowed_snoc]
      split <;> push_cast <;> omega
    · rw [List.getLast?_concat] at ha
      rw [← Option.some.inj ha]

theorem Windowed.attempt (hseconds : 0 < seconds) (hlast : last ≤ time) :
    let r := RateRow.next (time / nanos) seconds row
    Windowed limit seconds time
      (attempts ++ [⟨time, r.windowStartedAt, r.answer limit seconds (time / nanos)⟩]) (some r) := by
  intro r
  rcases h.next (unix_le hlast) with ⟨hr, hover⟩ | ⟨old, hold, hend, hr⟩
  · rw [show r = _ from hr]
    refine h.snoc le_rfl (show _ < time / nanos + seconds by omega) (fun a ha => .inr (hover a ha)) ?_
    have hnone : allowed (fun a => a.started == time / nanos) attempts = 0 := by
      refine List.countP_eq_zero.mpr fun a ha => ?_
      have := hover a ha
      simp only [Bool.and_eq_true, beq_iff_eq]
      omega
    show ((allowed (fun a => a.started == time / nanos) attempts : Nat) : Int) + 1 ≤ 1
    omega
  · obtain ⟨-, hearlier, hcount, hstart, -⟩ := h.current old hold
    rw [show r = _ from hr]
    exact h.snoc (hstart.trans (unix_le hlast)) hend hearlier (add_le_add_left hcount 1)

/-- Time passes, and the row stays or is deleted when its window is over. -/
theorem Windowed.later {row' : Option RateRow}
    (hlast : last ≤ time) (hrow : row' = row ∨ row' = none ∧
      ∀ r, row = some r → r.windowStartedAt + r.windowSeconds ≤ time / nanos) :
    Windowed limit seconds time attempts row' := by
  have hlater := unix_le hlast
  rcases hrow with rfl | ⟨rfl, hover⟩
  · refine ⟨h.inside, h.apart, h.counted, h.waits, fun hnone a ha => ?_, fun r hr => ?_⟩
    · exact (h.closed hnone a ha).trans hlater
    · obtain ⟨hseconds, hearlier, hcount, hstart, hend⟩ := h.current r hr
      exact ⟨hseconds, hearlier, hcount, hstart.trans hlater, hend⟩
  · refine ⟨h.inside, h.apart, h.counted, h.waits, fun _ a ha => ?_, nofun⟩
    rcases h.next hlater with ⟨-, hclosed⟩ | ⟨r, hr, hend, -⟩
    · exact hclosed a ha
    · obtain ⟨hseconds, -⟩ := h.current r hr
      have := hover r hr
      omega

end

theorem Limited.valid (h : Limited key limit window now attempts db) (hsome : attempts ≠ []) :
    ¬badLimit key limit window := by
  induction h with
  | start => exact absurd rfl hsome
  | attempt _ _ _ hwrite _ _ => exact (rateLimit_committed hwrite).1
  | other _ _ _ _ _ ih | maintain _ _ _ _ ih | elsewhere _ _ _ ih => exact ih hsome

theorem Limited.counted (h : Limited key limit window now attempts db) :
    Windowed limit (window.tdiv nanos) now attempts (db.rateLimits.lookup key) := by
  induction h with
  | start _ hnone =>
    rw [hnone]
    exact ⟨nofun, nofun, fun s => by simp [allowed], nofun, nofun, nofun⟩
  | attempt _ hlast hclock hwrite hrow ih =>
    obtain ⟨hvalid, rfl, htable⟩ := rateLimit_committed hwrite
    rw [htable, AList.lookup_insert] at hrow ⊢
    cases hrow
    rw [hclock]
    refine ih.attempt ?_ hlast
    exact seconds_pos hvalid
  | other _ hlast _ hne hwrite ih =>
    rw [(rateLimit_committed hwrite).2.2, AList.lookup_insert_ne hne.symm]
    exact ih.later hlast (.inl rfl)
  | @maintain _ time _ _ _ _ _ _ hlast hclock hwrite ih =>
    rw [maintain_rateLimits hwrite, Table.lookup_deleteWhere, hclock]
    refine ih.later hlast ?_
    rcases hrow : AList.lookup key _ with _ | r
    · exact .inl rfl
    · by_cases hover : r.windowStartedAt + r.windowSeconds ≤ time / nanos
      · exact .inr ⟨by simp [Option.filter, hover], fun r' hr' => Option.some.inj hr' ▸ hover⟩
      · exact .inl (by simp [Option.filter, hover])
  | elsewhere _ hlast htable ih =>
    rw [htable]
    exact ih.later hlast (.inl rfl)

/-- Times less than a window apart are, in whole seconds, at most a window apart. So the calls of such
    an interval are counted in two windows: in a third one a call would be later. -/
theorem Windowed.two_windows (h : Windowed limit seconds last attempts row) {since until_ : Int}
    (hshort : until_ - since < seconds * nanos) : ∃ s₁ s₂, ∀ a ∈ attempts,
      since ≤ a.time → a.time ≤ until_ → a.started = s₁ ∨ a.started = s₂ := by
  have hclose : ∀ a ∈ attempts, ∀ b ∈ attempts, since ≤ a.time → b.time ≤ until_ →
      b.started < a.started + 2 * seconds := by
    intro a ha b hb hsince huntil
    have := h.inside a ha
    have := h.inside b hb
    unfold nanos at *
    omega
  by_cases hfirst : ∃ a ∈ attempts, since ≤ a.time ∧ a.time ≤ until_
  · obtain ⟨a, ha, hasince, hauntil⟩ := hfirst
    by_cases hsecond : ∃ b ∈ attempts, since ≤ b.time ∧ b.time ≤ until_ ∧ b.started ≠ a.started
    · obtain ⟨b, hb, hbsince, hbuntil, hne⟩ := hsecond
      refine ⟨a.started, b.started, fun c hc hcsince hcuntil => ?_⟩
      have := h.apart a ha b hb
      have := h.apart b hb c hc
      have := h.apart c hc a ha
      have := hclose a ha b hb hasince hbuntil
      have := hclose b hb a ha hbsince hauntil
      have := hclose a ha c hc hasince hcuntil
      have := hclose b hb c hc hbsince hcuntil
      have := hclose c hc a ha hcsince hauntil
      have := hclose c hc b hb hcsince hbuntil
      omega
    · exact ⟨a.started, a.started, fun c hc hcsince hcuntil =>
        .inl (not_not.mp fun hne => hsecond ⟨c, hc, hcsince, hcuntil, hne⟩)⟩
  · exact ⟨0, 0, fun c hc hcsince hcuntil => absurd ⟨c, hc, hcsince, hcuntil⟩ hfirst⟩

theorem allowed_le_add {p q q' : Attempt → Bool}
    (h : ∀ a ∈ attempts, p a = true → q a = true ∨ q' a = true) :
    allowed p attempts ≤ allowed q attempts + allowed q' attempts := by
  induction attempts with
  | nil => simp [allowed]
  | cons a rest ih =>
    have hrest := ih fun b hb => h b (List.mem_cons_of_mem _ hb)
    have ha := h a List.mem_cons_self
    simp only [allowed, List.countP_cons] at hrest ⊢
    cases a.decision.allowed <;> cases hp : p a <;> cases hq : q a <;> cases hq' : q' a <;>
      simp_all <;> omega

/-- **The rate limit.** Every answered call lies in the window that it was counted in. At most `limit`
    calls are allowed in each window, and at most twice that in any interval shorter than a window.
    The next call on the key is allowed once the `RetryAfter` of the last one has passed. -/
theorem rateLimit_bounded (h : Limited key limit window now attempts db) :
    (∀ a ∈ attempts, a.started ≤ a.time / nanos ∧ a.time / nanos < a.started + window.tdiv nanos) ∧
    (∀ s, allowed (fun a => a.started == s) attempts ≤ limit.toNat) ∧
    (∀ since until_, until_ - since < window.tdiv nanos * nanos →
      allowed (fun a => since ≤ a.time && a.time ≤ until_) attempts ≤ 2 * limit.toNat) ∧
    ∀ a, attempts.getLast? = some a → ∀ (env : Env) (time : Int), now ≤ time →
      env.clock 0 = time / nanos → a.time + a.decision.retryAfter * nanos ≤ time →
      ∃ decision db', write (rateLimit env key limit window) db = .ok (decision, db') ∧
        decision.allowed = true := by
  have hcounted := h.counted
  refine ⟨hcounted.inside, hcounted.counted, fun since until_ hshort => ?_,
    fun a hlast env time hnow hclock hwait => ?_⟩
  · obtain ⟨s₁, s₂, htwo⟩ := hcounted.two_windows hshort
    have hsum : allowed (fun a => since ≤ a.time && a.time ≤ until_) attempts ≤
        allowed (fun a => a.started == s₁) attempts + allowed (fun a => a.started == s₂) attempts := by
      refine allowed_le_add fun a ha hin => ?_
      simp only [Bool.and_eq_true, decide_eq_true_eq] at hin
      simpa using htwo a ha hin.1 hin.2
    have h₁ := hcounted.counted s₁
    have h₂ := hcounted.counted s₂
    omega
  · have hvalid := h.valid (List.ne_nil_of_mem (List.mem_of_getLast? hlast))
    refine ⟨_, _, rateLimit_run hvalid, ?_⟩
    have hwaits := hcounted.waits a (List.mem_of_getLast? hlast)
    have hover : a.started + window.tdiv nanos ≤ time / nanos := by
      unfold nanos at *
      omega
    have hlimit : 0 < limit := by simp only [badLimit, not_or, not_le] at hvalid; exact hvalid.2.2.1
    rw [hclock]
    rcases hcounted.next (unix_le hnow) with ⟨hr, -⟩ | ⟨r, hr, hend, -⟩
    · rw [hr]
      exact decide_eq_true hlimit
    · have := (hcounted.current r hr).2.2.2.2 a hlast
      omega

namespace Demo

/-- The store at a time in nanoseconds. -/
def storeAt (time : Int) : Env := ⟨fun _ => time / nanos, fun _ => [], fun _ => [], [], [], []⟩

def loginKey : Bytes := utf8 "login"

/-- One call in two seconds. The one at 2.2 s is counted in the window that started at 1.9 s and is
    denied; a second later the next one is allowed. -/
theorem denied_then_allowed : ∃ attempts db, Limited loginKey 1 2000000000 2200000000 attempts db ∧
    attempts.map (fun a => a.decision) = [⟨true, 0, 2⟩, ⟨false, 0, 1⟩] ∧
    ∃ decision db', write (rateLimit (storeAt 3200000000) loginKey 1 2000000000) db =
      .ok (decision, db') ∧ decision.allowed = true := by
  have hvalid : ¬badLimit loginKey 1 2000000000 := by decide
  have h₀ : Limited loginKey 1 2000000000 0 [] Db.empty := .start 0 rfl
  have h₁ : Limited loginKey 1 2000000000 1900000000 _ _ := h₀.attempt (by decide)
    (show (storeAt 1900000000).clock 0 = _ from rfl) (rateLimit_run hvalid) (AList.lookup_insert _)
  have h₂ : Limited loginKey 1 2000000000 2200000000 _ _ := h₁.attempt (by decide)
    (show (storeAt 2200000000).clock 0 = _ from rfl) (rateLimit_run hvalid) (AList.lookup_insert _)
  exact ⟨_, _, h₂, by decide +kernel, (rateLimit_bounded h₂).2.2.2 _ rfl (storeAt 3200000000) 3200000000
    (by decide) rfl (by decide +kernel)⟩

end Demo

end Sesame.Selfhost
