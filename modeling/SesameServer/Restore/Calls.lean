import SesameServer.Restore.Swap

/- What the calls of a restore do between one state and the next.

   `Within faults I P x Q`: started with `P`, the program `x` ends with `Q`, and at
   every point where it can be stopped, by a crash or (`faults`) by a call that
   fails, `I` holds. There is a rule for each call. The calls a restore may see fail
   for reasons of its own (`os.Remove` of what is not there) are the ones whose error
   it ignores. -/
namespace Sesame.Ops

open Crash FileTree

variable {α β : Type} {faults : Bool} {I P : Site β → Prop}

/-- A program whose every stop satisfies `I`. -/
abbrev Within (faults : Bool) (I P : Site β → Prop) (x : Fs β α) (Q : α → Site β → Prop) : Prop :=
  Runs faults P x Q (fun e w => e = .fault ∧ faults = true ∧ w.failIn = none ∧ I w.state) I

variable {Q : Site β → Prop} {p : List Bytes}

theorem change_within {f : Disk Bytes β → Except IoError (Disk Bytes β)} (stop : ∀ s, P s → I s)
    (ok : ∀ s, P s → ∃ d, f s.disk = .ok d ∧ Q { s with disk := d }) :
    Within faults I P (change f) fun _ => Q := by
  refine Runs.op_runs (fun s a s' hp h => ?_) (fun w e _ hp h => ?_)
    (fun w hf hq hp => ⟨rfl, hf, hq, stop _ hp⟩) stop
  · obtain ⟨d, hd, hQ⟩ := ok s hp
    simp only [hd, Except.ok.injEq, Prod.mk.injEq] at h
    exact h.2 ▸ hQ
  · obtain ⟨d, hd, -⟩ := ok _ hp
    simp [hd] at h

theorem look_within {f : Disk Bytes β → α} (stop : ∀ s, P s → I s) :
    Within faults I P (look f) fun a s => P s ∧ a = f s.disk := by
  refine Runs.op_runs (fun s a s' hp h => ?_) (fun w e _ hp h => ?_)
    (fun w hf hq hp => ⟨rfl, hf, hq, stop _ hp⟩) stop
  · simp only [Except.ok.injEq, Prod.mk.injEq] at h
    obtain ⟨rfl, rfl⟩ := h
    exact ⟨hp, rfl⟩
  · cases h

theorem point_within (stop : ∀ s, P s → I s) : Within faults I P point fun _ => P :=
  (look_within stop).weaken fun _ _ h => h.1

/-- What removing one path below `p` keeps, removing them all keeps. -/
theorem removeAll_within (hp : p ≠ []) (stop : ∀ s, P s → I s)
    (keeps : ∀ s x hx, p <+: x → P s → P { s with disk := s.disk.unlink x hx }) :
    Within faults I P (removeAll p) fun _ s => P s ∧ s.disk.node p = none := by
  have one : ∀ x, p <+: x → ∀ s, P s → ∃ d,
      (if hx : x ≠ [] then Except.ok (s.disk.unlink x hx) else .error IoError.invalid) = .ok d ∧
        P { s with disk := d } ∧ d.node x = none := by
    intro x hx s hs
    have hne : x ≠ [] := by
      rintro rfl
      exact hp (List.prefix_nil.mp hx)
    exact ⟨_, dif_pos hne, keeps s x hne hx hs, by rw [Disk.node_unlink, if_pos List.prefix_rfl]⟩
  refine Runs.bind_runs (look_within stop) fun below => ?_
  refine Runs.bind_runs (R := fun _ => P) ?_ fun _ => ?_
  · -- the listing holds only paths below `p`
    refine (Runs.forEach_runs (I := fun l s => (∀ x ∈ l, p <+: x) ∧ P s) (fun x l => ?_) below).conseq
      ?_ (fun _ _ h => h.2)
    · refine change_within (fun s h => stop s h.2) fun s h => ?_
      obtain ⟨d, hd, hP, -⟩ := one x (h.1 x List.mem_cons_self) s h.2
      exact ⟨d, hd, fun y hy => h.1 y (List.mem_cons_of_mem _ hy), hP⟩
    · rintro s ⟨hs, rfl⟩
      exact ⟨fun x hx => Disk.of_mem_listing hx, hs⟩
  · exact change_within stop (one p List.prefix_rfl)

theorem attempt_within {x : Fs β Unit} {E : Failure → World (Site β) → Prop}
    (hx : Within faults I P x fun _ => Q) :
    Runs faults P (attempt x) (fun _ s => Q s ∨ (faults = true ∧ I s)) E I :=
  Runs.attempt_runs (hx.mono (fun _ h => h) (fun _ _ h => Or.inl h)
    (fun _ _ h => Or.inr ⟨h.2.1, h.2.2.2⟩) (fun _ h => h))

/-- `_ = os.Remove(p)`: removed or not. -/
theorem attempt_remove {E : Failure → World (Site β) → Prop} (stop : ∀ s, P s → I s)
    (left : ∀ s, P s → Q s) (gone : ∀ s hp, P s → Q { s with disk := s.disk.unlink p hp }) :
    Runs faults P (attempt (remove p)) (fun _ => Q) E I := by
  refine Runs.attempt_runs ?_
  unfold remove change
  refine Runs.op_runs (fun s a s' hs h => ?_) (fun w e _ hs h => left _ hs)
    (fun w _ _ hs => left _ hs) stop
  cases hr : s.disk.remove p with
  | ok d =>
    obtain ⟨hp, rfl⟩ := Disk.remove_ok hr
    simp only [hr, Except.ok.injEq, Prod.mk.injEq] at h
    exact h.2 ▸ gone s hp hs
  | error e => simp [hr] at h

theorem removeUnlessGone_within (hp : p ≠ [])
    (stop : ∀ s, P s → I s) (file : ∀ s, P s → ∃ c, s.disk.node p = some (.file c))
    (gone : ∀ s, P s → Q { s with disk := s.disk.unlink p hp }) :
    Within faults I P (removeUnlessGone p) fun _ => Q := by
  have hremove : Within faults P P (remove p) fun _ => Q := by
    refine change_within (fun _ h => h) fun s hs => ?_
    obtain ⟨c, hc⟩ := file s hs
    exact ⟨_, Disk.remove_file hc hp, gone s hs⟩
  refine Runs.onError_runs (I := fun e s => e = .fault ∧ faults = true ∧ P s)
    (hremove.crashing stop)
    (fun e w h => ⟨h.2.2.1, h.1, h.2.1, h.2.2.2⟩) fun e => ?_
  -- the error is the injected one, not `fs.ErrNotExist`
  refine Runs.assuming fun he => ?_
  subst he
  exact Runs.fail_runs fun w hq hs => ⟨rfl, hs.1, hq.resolve_right (by simp), stop _ hs.2⟩

end Sesame.Ops
