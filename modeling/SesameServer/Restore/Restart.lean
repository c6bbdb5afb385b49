import SesameServer.Restore.Atomic

/- Recovery that is itself interrupted, and started again.

   1. `Attempts` are recoveries cut short at any point, one after the other. Each
      must start in a `Restartable` state.
   2. `recovery_restartable`: after any number of them the last one, if it is not
      interrupted, ends with the old items or, after a commit, with the new ones, and
      on the way every old item is in place or aside.
   3. The condition is needed: in `Demo.old_item_lost` a roll back is stopped after it has
      put the old database back, and the next one takes it for a new one to remove. -/
namespace Sesame.Ops

open Crash FileTree

variable {β : Type} {codec : Codec β} {X : Setup β} {d : Disk Bytes β} {staging stamp : Bytes}

/-- Recoveries interrupted between two calls, from `s` to `t`. -/
inductive Attempts (codec : Codec β) (s : Site β) : Site β → Prop where
  | none : Attempts codec s s
  | again {t : Site β} {k : Nat} {w : World (Site β)} (before : Attempts codec s t)
      (restartable : Restartable codec t)
      (stopped : recoverLocked codec (.crashing t k) = .error .crash w) :
      Attempts codec s w.state

/-- What an attempt can find: nothing happened, or a state of the replacement `X`. -/
def Found (codec : Codec β) (d : Disk Bytes β) (staging : Bytes) (c : Bool) (s : Site β) : Prop :=
  (s = ⟨d, false⟩ ∧ c = false) ∨
    ∃ X : Setup β, X.disk = d ∧ X.staging = staging ∧ Recoverable codec X c s

variable {s : Site β} {c : Bool}

theorem Stopped.found (h : Stopped codec d staging s) : Found codec d staging s.committed s := by
  rcases h with rfl | ⟨X, hd, hs, hopened | ⟨c, hpending, -⟩ | hswept⟩
  · exact Or.inl ⟨rfl, rfl⟩
  · refine Or.inr ⟨X, hd, hs, Or.inr ⟨X.start, fun n _ => ?_, ?_⟩⟩
    · rw [hopened.state.ghost]
      exact ⟨rfl, rfl⟩
    · exact hopened.state.ghost.symm ▸ hopened.state
  · exact Or.inr ⟨X, hd, hs, Or.inl (hpending.ghost.symm ▸ hpending)⟩
  · obtain ⟨v, hv, h⟩ := hswept.items
    rw [h.ghost]
    exact Or.inr ⟨X, hd, hs, Or.inr ⟨v, hv, h⟩⟩

/-- An interrupted recovery leaves a state a recovery can find. -/
theorem Found.again (ready : Ready d staging) {k : Nat} {w : World (Site β)}
    (h : Found codec d staging c s) (hr : Restartable codec s)
    (stop : recoverLocked codec (.crashing s k) = .error .crash w) :
    Found codec d staging c w.state := by
  rcases h with ⟨rfl, hc⟩ | ⟨X, hd, hs, hpending | hlanded⟩
  · have hrun : Within false (· = (⟨d, false⟩ : Site β)) (· = ⟨d, false⟩) (recoverLocked codec)
        fun r t => r = .nothing ∧ t = ⟨d, false⟩ :=
      recover_nothing fun t ht => ht ▸ journalOf_none ready.journal
    exact Or.inl ⟨hrun.crashed rfl stop, hc⟩
  · exact Or.inr ⟨X, hd, hs, recover_pending.crashed ⟨hpending, hr⟩ stop⟩
  · have hrun : Within false (Landed codec X none c) (Landed codec X none c) (recoverLocked codec)
        fun r t => r = .nothing ∧ Landed codec X none c t :=
      recover_nothing fun t ⟨v, _, ht⟩ => ht.no_journal
    exact Or.inr ⟨X, hd, hs, Or.inr (hrun.crashed hlanded stop)⟩

theorem Attempts.found (ready : Ready d staging) {t : Site β}
    (h : Attempts codec s t) (start : Found codec d staging c s) : Found codec d staging c t := by
  induction h with
  | none => exact start
  | again _ hr stop ih => exact ih.again ready hr stop

/-- Every old item is in place or in `aside`. -/
def OldSafe (d : Disk Bytes β) (aside : Bytes) (s : Site β) : Prop :=
  ∀ n ∈ managedItems, s.disk.under [n] = d.under [n] ∨ s.disk.under [aside, n] = d.under [n]

theorem At.oldSafe {v : Shelves β} {j : Option Journal} (h : At codec X v j c s)
    (hv : ∀ n ∈ managedItems, v n .place = X.was n ∨ v n .kept = X.was n) :
    OldSafe X.disk X.aside s := by
  intro n hn
  rcases hv n hn with hi | hi
  · exact Or.inl ((h.shelves.shelf n hn .place).trans hi)
  · exact Or.inr ((h.shelves.shelf n hn .kept).trans hi)

theorem Landed.oldSafe {j : Option Journal} (h : Landed codec X j c s) :
    OldSafe X.disk X.aside s := by
  obtain ⟨v, hv, hs⟩ := h
  refine hs.oldSafe fun n hn => ?_
  have hfinal := hv n hn
  cases c with
  | true => exact Or.inr hfinal.2
  | false => exact Or.inl hfinal.1

theorem Recoverable.oldSafe (h : Recoverable codec X c s) : OldSafe X.disk X.aside s := by
  rcases h with hpending | hlanded
  · cases hpending with
    | moving v hv hs => exact hs.oldSafe fun n hn => (hv n hn).imp (fun h => h.1) (fun h => h.2)
    | installing v hv hs => exact hs.oldSafe fun n hn => (hv n hn).imp (fun h => h.1) (fun h => h.1)
    | committed v hv hs => exact hs.oldSafe fun n hn => Or.inr (hv n hn).2
  · exact hlanded.oldSafe

/-- The journal a recovery finds says `committed` exactly if one has said so. -/
theorem Recoverable.phase (h : Recoverable codec X c s) {state : Journal}
    (hj : journalOf codec s.disk = .ok (some state)) : state.phase = .committed ↔ c = true := by
  rcases h with hpending | ⟨v, -, hs⟩
  · cases hpending with
    | moving v _ hs =>
      rw [hs.has_journal (by simp)] at hj
      obtain rfl : X.journal .movingOld = state := by simpa using hj
      simp [Setup.journal]
    | installing v _ hs =>
      rw [hs.has_journal (by simp)] at hj
      obtain rfl : X.journal .installing = state := by simpa using hj
      simp [Setup.journal]
    | committed v _ hs =>
      rw [hs.has_journal (by simp)] at hj
      obtain rfl : X.journal .committed = state := by simpa using hj
      simp [Setup.journal]
  · rw [hs.no_journal] at hj
    cases hj

theorem Recoverable.completes (h : Recoverable codec X c s) (hr : Restartable codec s) :
    ∃ r t, recoverLocked codec (.calm s) = .ok r (.calm t) ∧ Landed codec X none c t := by
  rcases h with hpending | hlanded
  · obtain ⟨r, t, hrun, hswept⟩ := (recover_pending.mono (fun _ h => h) (fun _ _ h => h)
      (fun _ _ h => by simp at h) (fun _ h => h)).completes ⟨hpending, hr⟩
    exact ⟨r, t, hrun, hswept.items⟩
  · obtain ⟨v, -, hs⟩ := id hlanded
    exact ⟨_, s, recover_none hs.journal, hlanded⟩

theorem Landed.place (h : Landed codec X none c s) {n : Bytes} (hn : n ∈ managedItems) :
    s.disk.under [n] = if c then X.disk.under [X.staging, n] else X.disk.under [n] := by
  obtain ⟨v, hv, hs⟩ := h
  have hplace := hs.shelves.shelf n hn .place
  have hfinal := hv n hn
  cases c with
  | true | false => exact hplace.trans hfinal.1

/-- **Recovery can be restarted.** `swap` stops at any point, and recoveries are interrupted
    after it any number of times. If each attempt that finds a journal of the installing
    phase finds every old item whose name is also new either aside or with its
    replacement still staged, then the last one ends with exactly the old items, or with
    exactly the new ones if a journal has said `committed`, and no old item is lost. -/
theorem recovery_restartable (ready : Ready d staging) (hstamp : Plain stamp) {k : Nat}
    {w : World (Site β)}
    (stopped : swap codec staging stamp (.crashing ⟨d, false⟩ k) = .error .crash w)
    {t : Site β} (attempts : Attempts codec w.state t) (restartable : Restartable codec t) :
    (∀ state, journalOf codec t.disk = .ok (some state) →
      (state.phase = .committed ↔ w.state.committed = true)) ∧
    ∃ aside r s, recoverLocked codec (.calm t) = .ok r (.calm s) ∧
      (∀ n ∈ managedItems, s.disk.under [n] =
        if w.state.committed then d.under [staging, n] else d.under [n]) ∧
      OldSafe d aside t ∧ OldSafe d aside s := by
  have hfound : Found codec d staging w.state.committed w.state :=
    ((swap_runs ready hstamp).crashed rfl stopped rfl).found
  rcases attempts.found ready hfound with ⟨rfl, hc⟩ | ⟨X, rfl, rfl, hrec⟩
  · refine ⟨fun state hj => ?_, [], _, _, recover_none ready.journal, fun n _ => ?_,
      fun n _ => Or.inl rfl, fun n _ => Or.inl rfl⟩
    · rw [journalOf_none ready.journal] at hj
      cases hj
    · rw [hc]
      rfl
  · obtain ⟨r, s, hrun, hlanded⟩ := hrec.completes restartable
    exact ⟨fun state hj => hrec.phase hj, X.aside, r, s, hrun, fun n hn => hlanded.place hn,
      hrec.oldSafe, hlanded.oldSafe⟩

namespace Demo

/-- A recovery after the crash of `stopped 30`, stopped after `k` calls. -/
def interrupted (k : Nat) : EStateM.Result (Stop Failure) (World (Site Text)) Recovered :=
  recoverLocked textCodec (.crashing (last (stopped 30)).state k)

def restarted (k : Nat) : EStateM.Result (Stop Failure) (World (Site Text)) Recovered :=
  recoverLocked textCodec (.calm (last (interrupted k)).state)

/-- The new database has been installed when `swap` stops. The first recovery removes it,
    puts the old one back and is stopped before it has removed the journal. The second one
    removes the old database, and there is no copy of it. -/
theorem old_item_lost : ∃ w w₁ w₂, stopped 30 = .error .crash w ∧
      recoverLocked textCodec (.crashing w.state 8) = .error .crash w₁ ∧
      recoverLocked textCodec (.calm w₁.state) = .ok .rolledBack w₂ ∧
      before.node [databaseName] = some (.file .old) ∧
      w₂.state.disk.node [databaseName] = none ∧
      ∀ p, w₂.state.disk.node p ≠ some (.file .old) := by
  have hstop : crashes (stopped 30) = true ∧ crashes (interrupted 8) = true ∧
      result (restarted 8) = some .rolledBack ∧ before.node [databaseName] = some (.file .old) ∧
      (last (restarted 8)).state.disk.node [databaseName] = none ∧
      ∀ p ∈ (last (restarted 8)).state.disk.paths,
        (last (restarted 8)).state.disk.node p ≠ some (.file .old) := by decide +kernel
  obtain ⟨h, h₁, h₂, hbefore, hplace, hnone⟩ := hstop
  have hw := eq_crash h
  have hw₁ : recoverLocked textCodec (.crashing (last (stopped 30)).state 8) =
      .error .crash (last (interrupted 8)) := eq_crash h₁
  have hw₂ : recoverLocked textCodec (.calm (last (interrupted 8)).state) =
      .ok .rolledBack (last (restarted 8)) := eq_ok h₂
  generalize last (restarted 8) = w₂ at hw₂ hplace hnone
  generalize last (interrupted 8) = w₁ at hw₁ hw₂
  generalize last (stopped 30) = w at hw hw₁
  refine ⟨w, w₁, w₂, hw, hw₁, hw₂, hbefore, hplace, fun p hp => ?_⟩
  exact hnone p (w₂.state.disk.listed p (by simp [hp])) hp

/-- Stopped before it puts the old database back, a recovery can be started again. -/
theorem recovery_restartable_early :
    ∃ w t r s, stopped 30 = .error .crash w ∧ Attempts textCodec w.state t ∧ Restartable textCodec t ∧
      t.disk.node [databaseName] = none ∧ recoverLocked textCodec (.calm t) = .ok r (.calm s) ∧
      ∀ n ∈ managedItems, s.disk.under [n] = before.under [n] := by
  have hstop : crashes (stopped 30) = true ∧ (last (stopped 30)).state.committed = false ∧
      Restartable textCodec (last (stopped 30)).state ∧ crashes (interrupted 5) = true ∧
      Restartable textCodec (last (interrupted 5)).state ∧
      (last (interrupted 5)).state.disk.node [databaseName] = none := by decide +kernel
  obtain ⟨h, hghost, hr, h₁, hr₁, hplace⟩ := hstop
  have hw := eq_crash h
  have ht : recoverLocked textCodec (.crashing (last (stopped 30)).state 5) =
      .error .crash (last (interrupted 5)) := eq_crash h₁
  generalize last (stopped 30) = w at hw hghost hr ht
  generalize last (interrupted 5) = w₁ at ht hr₁ hplace
  have attempts : Attempts textCodec w.state w₁.state := .again .none hr ht
  obtain ⟨-, aside, r, s, hrun, hitems, -, -⟩ :=
    recovery_restartable ready plain_time hw attempts hr₁
  refine ⟨w, w₁.state, r, s, hw, attempts, hr₁, hplace, hrun, fun n hn => ?_⟩
  rw [hitems n hn, hghost]
  rfl

end Demo

end Sesame.Ops
